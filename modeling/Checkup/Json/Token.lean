import Checkup.Json.Numeral

/-!
# Tokens

The tokens of a JSON text: brackets, marks, words, strings and numerals. Blanks, tabs, line feeds and carriage
returns separate tokens and are none. A string is read as the characters and code units that it spells;
`Piece.decode` puts surrogate pairs together, and a surrogate without its partner has no text.

* `Token.read`: the token at the start of a text, and the rest.
* `tokens`: all tokens of a text.
-/

namespace Checkup.Json

/-- What one spelling inside a string stands for: a character, or a code unit of four hexadecimal digits. -/
inductive Piece where
  | char (c : Char)
  | unit (n : Nat)

/-- The value of a hexadecimal digit. -/
def hexValue (c : Char) : Option Nat :=
  if c.isDigit then some (c.toNat - '0'.toNat)
  else if 'a' ≤ c ∧ c ≤ 'f' then some (c.toNat - 'a'.toNat + 10)
  else if 'A' ≤ c ∧ c ≤ 'F' then some (c.toNat - 'A'.toNat + 10)
  else none

/-- The number of four hexadecimal digits. -/
def hexUnit (a b c d : Char) : Option Nat := do
  return 4096 * (← hexValue a) + 256 * (← hexValue b) + 16 * (← hexValue c) + (← hexValue d)

/-- What a character stands for after a backslash. -/
def escaped (c : Char) : Option Char :=
  match c with
  | '\"' => some '\"'
  | '\\' => some '\\'
  | '/' => some '/'
  | 'b' => some '\x08'
  | 'f' => some '\x0c'
  | 'n' => some '\n'
  | 'r' => some '\r'
  | 't' => some '\t'
  | _ => none

/-- Whether the code unit is the first of a surrogate pair. -/
def isHighSurrogate (n : Nat) : Bool := 0xD800 ≤ n && n < 0xDC00

/-- Whether the code unit is the second of a surrogate pair. -/
def isLowSurrogate (n : Nat) : Bool := 0xDC00 ≤ n && n < 0xE000

/-- The text that the pieces stand for. -/
def Piece.decode : List Piece → Option Text
  | [] => some []
  | char c :: rest => (c :: ·) <$> decode rest
  | unit n :: unit m :: rest =>
    if isHighSurrogate n then
      if isLowSurrogate m then
        (Char.ofNat (0x10000 + (n - 0xD800) * 0x400 + (m - 0xDC00)) :: ·) <$> decode rest
      else none
    else if isLowSurrogate n then none
    else (Char.ofNat n :: ·) <$> decode (unit m :: rest)
  | unit n :: rest =>
    if isHighSurrogate n || isLowSurrogate n then none else (Char.ofNat n :: ·) <$> decode rest

/-- The pieces of a string after its opening quote, after those of `acc`, which is reversed; and what follows the
closing quote. -/
def readPieces (acc : List Piece) : Text → Option (List Piece × Text)
  | [] => none
  | '\"' :: t => some (acc.reverse, t)
  | '\\' :: 'u' :: a :: b :: c :: d :: t =>
    match hexUnit a b c d with
    | some n => readPieces (.unit n :: acc) t
    | none => none
  | '\\' :: c :: t =>
    match escaped c with
    | some e => readPieces (.char e :: acc) t
    | none => none
  | c :: t => if c.toNat < 32 || c = '\\' then none else readPieces (.char c :: acc) t

theorem readPieces_length {acc ps : List Piece} {t r : Text} (h : readPieces acc t = some (ps, r)) :
    r.length < t.length := by
  fun_induction readPieces acc t with
  | case1 => cases h
  | case2 =>
    simp only [Option.some.injEq, Prod.mk.injEq] at h
    simp [h.2]
  | case3 acc a b c d t n hn ih =>
    have := ih h
    simp only [List.length_cons]
    omega
  | case4 => cases h
  | case5 acc c t hne e he ih =>
    have := ih h
    simp only [List.length_cons]
    omega
  | case6 => cases h
  | case7 => cases h
  | case8 acc c t h1 h2 h3 h4 ih =>
    have := ih h
    simp only [List.length_cons]
    omega

/-- A token of a JSON text. A string has a text unless a surrogate stands alone in it. -/
inductive Token where
  | openBrace
  | closeBrace
  | openBracket
  | closeBracket
  | colon
  | comma
  | null
  | bool (b : Bool)
  | string (s : Option String)
  | numeral (n : Numeral)

/-- Whether the character separates tokens. -/
def isSpace (c : Char) : Bool := c = ' ' || c = '\t' || c = '\n' || c = '\r'

/-- The token at the start of a text, and the rest. -/
def Token.read (t : Text) : Option (Token × Text) :=
  match t with
  | '\x7b' :: t => some (openBrace, t)
  | '\x7d' :: t => some (closeBrace, t)
  | '[' :: t => some (openBracket, t)
  | ']' :: t => some (closeBracket, t)
  | ':' :: t => some (colon, t)
  | ',' :: t => some (comma, t)
  | 'n' :: 'u' :: 'l' :: 'l' :: t => some (null, t)
  | 't' :: 'r' :: 'u' :: 'e' :: t => some (bool true, t)
  | 'f' :: 'a' :: 'l' :: 's' :: 'e' :: t => some (bool false, t)
  | '\"' :: t => (readPieces [] t).map fun (ps, r) => (string ((Piece.decode ps).map String.ofList), r)
  | _ => (Numeral.read t).map fun (n, r) => (numeral n, r)

theorem Token.read_length {t r : Text} {k : Token} (h : Token.read t = some (k, r)) : r.length < t.length := by
  unfold Token.read at h
  split at h
  case h_10 =>
    simp only [Option.map_eq_some_iff, Prod.mk.injEq] at h
    obtain ⟨⟨ps, r'⟩, h, _, rfl⟩ := h
    have := readPieces_length h
    simp only [List.length_cons]
    omega
  case h_11 =>
    simp only [Option.map_eq_some_iff, Prod.mk.injEq] at h
    obtain ⟨⟨n, r'⟩, h, _, rfl⟩ := h
    exact Numeral.read_length h
  all_goals
    simp only [Option.some.injEq, Prod.mk.injEq] at h
    rw [← h.2]
    simp only [List.length_cons]
    omega

/-- The tokens of a text after those of `acc`, which is reversed. -/
def tokensOnto (acc : List Token) (t : Text) : Option (List Token) :=
  match t with
  | [] => some acc.reverse
  | c :: rest =>
    if isSpace c then tokensOnto acc rest
    else
      match _h : Token.read (c :: rest) with
      | none => none
      | some (k, r) => tokensOnto (k :: acc) r
termination_by t.length
decreasing_by
  · simp
  · exact Token.read_length _h

/-- The tokens of a text. -/
def tokens (t : Text) : Option (List Token) := tokensOnto [] t

end Checkup.Json
