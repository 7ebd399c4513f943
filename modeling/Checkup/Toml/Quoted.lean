import Checkup.Json.Token

/-!
# Quoted strings of TOML

Strings stand in double quotes, where a backslash starts an escape, or in single quotes, where it does not. Three
quotes open a string of several lines. Each reader starts behind the opening quotes and gives the string and what
follows the closing ones.
-/

namespace Checkup.Toml

/-- A blank within a line. -/
def isLineBlank (c : Char) : Bool := c == ' ' || c == '\t'

/-- A character that a comment may hold, and a string unless it means something else there. -/
def isPlain (c : Char) : Bool := c == '\t' || (0x20 ≤ c.toNat && c.toNat ≤ 0x7E) || 0x80 ≤ c.toNat

/-- The character of a code point, if it is one. -/
def scalar? (n : Nat) : Option Char := if n.isValidChar then some (Char.ofNat n) else none

/-- What a character stands for after a backslash. -/
def escaped (c : Char) : Option Char :=
  match c with
  | 'b' => some '\x08'
  | 'f' => some '\x0c'
  | 'n' => some '\n'
  | 'r' => some '\r'
  | 't' => some '\t'
  | '\"' => some '\"'
  | '\\' => some '\\'
  | _ => none

/-- The escape behind a backslash, and the rest. -/
def readEscape : Text → Option (Char × Text)
  | 'u' :: a :: b :: c :: d :: t => do
    let n ← Json.hexUnit a b c d
    return (← scalar? n, t)
  | 'U' :: a :: b :: c :: d :: e :: f :: g :: h :: t => do
    let high ← Json.hexUnit a b c d
    let low ← Json.hexUnit e f g h
    return (← scalar? (65536 * high + low), t)
  | c :: t => do return (← escaped c, t)
  | [] => none

theorem readEscape_length {t r : Text} {c : Char} (h : readEscape t = some (c, r)) : r.length < t.length := by
  unfold readEscape at h
  split at h
  · simp only [bind, Option.bind_eq_some_iff, pure, Option.some.injEq, Prod.mk.injEq] at h
    obtain ⟨_, _, _, _, _, rfl⟩ := h
    simp only [List.length_cons]
    omega
  · simp only [bind, Option.bind_eq_some_iff, pure, Option.some.injEq, Prod.mk.injEq] at h
    obtain ⟨_, _, _, _, _, _, _, rfl⟩ := h
    simp only [List.length_cons]
    omega
  · simp only [bind, Option.bind_eq_some_iff, pure, Option.some.injEq, Prod.mk.injEq] at h
    obtain ⟨_, _, _, rfl⟩ := h
    simp
  · cases h

/-- A string in double quotes. -/
def readBasic (acc : Text) (t : Text) : Option (Text × Text) :=
  match t with
  | [] => none
  | '\"' :: rest => some (acc.reverse, rest)
  | '\\' :: rest =>
    match _h : readEscape rest with
    | none => none
    | some (c, after) => readBasic (c :: acc) after
  | c :: rest => if isPlain c then readBasic (c :: acc) rest else none
termination_by t.length
decreasing_by
  · have := readEscape_length _h
    simp only [List.length_cons]
    omega
  · simp

/-- Drops blanks and line breaks. -/
def dropBreaks : Text → Text
  | '\r' :: '\n' :: t => dropBreaks t
  | c :: t => if isLineBlank c || c == '\n' then dropBreaks t else c :: t
  | [] => []

theorem dropBreaks_length (t : Text) : (dropBreaks t).length ≤ t.length := by
  fun_induction dropBreaks t with
  | case1 t ih => simp only [List.length_cons]; omega
  | case2 c t h1 h2 ih => simp only [List.length_cons]; omega
  | case3 => simp
  | case4 => simp

/-- What goes on behind a backslash at the end of a line: blanks and line breaks do not count. -/
def continued? (t : Text) : Option Text :=
  match t.dropWhile isLineBlank with
  | '\n' :: rest => some (dropBreaks rest)
  | '\r' :: '\n' :: rest => some (dropBreaks rest)
  | _ => none

theorem continued?_length {t r : Text} (h : continued? t = some r) : r.length < t.length := by
  have hd : (t.dropWhile isLineBlank).length ≤ t.length := (List.dropWhile_suffix _).length_le
  unfold continued? at h
  split at h
  · rename_i rest heq
    rw [heq] at hd
    simp only [Option.some.injEq] at h
    have := dropBreaks_length rest
    rw [← h]
    simp only [List.length_cons] at hd
    omega
  · rename_i rest heq
    rw [heq] at hd
    simp only [Option.some.injEq] at h
    have := dropBreaks_length rest
    rw [← h]
    simp only [List.length_cons] at hd
    omega
  · cases h

/-- What follows a closing sequence of three quotes, and up to two quotes before it that belong to the string. -/
def closing? (quote : Char) : Text → Option (Text × Text)
  | a :: b :: c :: d :: e :: t =>
    if a = quote ∧ b = quote ∧ c = quote then
      if d = quote then if e = quote then some ([quote, quote], t) else some ([quote], e :: t)
      else some ([], d :: e :: t)
    else none
  | [a, b, c, d] =>
    if a = quote ∧ b = quote ∧ c = quote then if d = quote then some ([quote], []) else some ([], [d]) else none
  | [a, b, c] => if a = quote ∧ b = quote ∧ c = quote then some ([], []) else none
  | _ => none

/-- A string of several lines in double quotes. A line break counts as a line feed. -/
def readMultiBasic (acc : Text) (t : Text) : Option (Text × Text) :=
  match closing? '\"' t with
  | some (quotes, rest) => some (acc.reverse ++ quotes, rest)
  | none =>
    match t with
    | [] => none
    | '\\' :: rest =>
      match _hc : continued? rest with
      | some after => readMultiBasic acc after
      | none =>
        match _he : readEscape rest with
        | none => none
        | some (c, after) => readMultiBasic (c :: acc) after
    | '\r' :: '\n' :: rest => readMultiBasic ('\n' :: acc) rest
    | c :: rest => if isPlain c || c == '\n' then readMultiBasic (c :: acc) rest else none
termination_by t.length
decreasing_by
  · have := continued?_length _hc
    simp only [List.length_cons]
    omega
  · have := readEscape_length _he
    simp only [List.length_cons]
    omega
  · simp only [List.length_cons]
    omega
  · simp

/-- A string in single quotes. -/
def readLiteral (acc : Text) : Text → Option (Text × Text)
  | [] => none
  | '\'' :: t => some (acc.reverse, t)
  | c :: t => if isPlain c then readLiteral (c :: acc) t else none

/-- A string of several lines in single quotes. A line break counts as a line feed. -/
def readMultiLiteral (acc : Text) (t : Text) : Option (Text × Text) :=
  match closing? '\'' t with
  | some (quotes, rest) => some (acc.reverse ++ quotes, rest)
  | none =>
    match t with
    | [] => none
    | '\r' :: '\n' :: rest => readMultiLiteral ('\n' :: acc) rest
    | c :: rest => if isPlain c || c == '\n' then readMultiLiteral (c :: acc) rest else none
termination_by t.length
decreasing_by
  · simp only [List.length_cons]
    omega
  · simp

/-- Drops a line break at the start. -/
def dropBreak : Text → Text
  | '\n' :: t => t
  | '\r' :: '\n' :: t => t
  | t => t

/-- The quoted string at the start of a text, and the rest. A line break right behind three quotes does not count. -/
def readQuoted : Text → Option (Text × Text)
  | '\"' :: '\"' :: '\"' :: t => readMultiBasic [] (dropBreak t)
  | '\'' :: '\'' :: '\'' :: t => readMultiLiteral [] (dropBreak t)
  | '\"' :: t => readBasic [] t
  | '\'' :: t => readLiteral [] t
  | _ => none

/-- The quoted string of one line at the start of a text, and the rest. -/
def readQuotedKey : Text → Option (Text × Text)
  | '\"' :: t => readBasic [] t
  | '\'' :: t => readLiteral [] t
  | _ => none

end Checkup.Toml
