/-!
# Texts and their bytes

A text is a list of characters. Positions in it are byte offsets of its UTF-8 form, so a character takes the bytes
its code point needs; `byteSize` adds them up, and `dropBytes`, `takeBytes` and `slice` cut a text at such offsets.

* `lines`: a line ends at a line feed, and one carriage return before the line feed belongs to the break.
* `trim`: blanks are the characters of the Unicode property `White_Space`.
* `occurs`, `find?`, `indexes`: search by character or by text.
-/

/-- A blank: a character of the property `White_Space`. -/
def Char.isBlank (c : Char) : Bool :=
  let n := c.toNat
  (9 ≤ n && n ≤ 13) || n == 32 || n == 0x85 || n == 0xA0 || n == 0x1680 || (0x2000 ≤ n && n ≤ 0x200A) ||
    n == 0x2028 || n == 0x2029 || n == 0x202F || n == 0x205F || n == 0x3000

namespace Checkup

/-- A text: its characters in order. -/
abbrev Text := List Char

/-- What is said of all characters of a text is decided by a look at each of them. -/
instance (priority := high) Text.decidableForallMem (p : Char → Prop) [DecidablePred p] (t : Text) :
    Decidable (∀ x ∈ t, p x) :=
  List.decidableBAll p t

/-- What is said of a character, if there is one, is decided by a look at it. -/
instance (priority := high) Text.decidableForallMem? (p : Char → Prop) [DecidablePred p] (x? : Option Char) :
    Decidable (∀ x ∈ x?, p x) :=
  Option.decidableForallMem x?

namespace Text

/-! ## Byte offsets -/

/-- The number of bytes of the text in UTF-8. -/
def byteSize (t : Text) : Nat := t.foldl (fun n c => n + c.utf8Size) 0

/-- What follows the first `n` bytes. An offset inside a character counts as the offset where it starts. -/
def dropBytes : Nat → Text → Text
  | _, [] => []
  | n, c :: t => if n < c.utf8Size then c :: t else dropBytes (n - c.utf8Size) t

/-- What follows the first `n` bytes, if a character starts there or the text ends there. -/
def dropBytes? : Nat → Text → Option Text
  | n, [] => if n = 0 then some [] else none
  | n, c :: t => if n = 0 then some (c :: t) else if n < c.utf8Size then none else dropBytes? (n - c.utf8Size) t

/-- The characters that lie within the first `n` bytes, after those of `taken`, which is reversed. -/
def takeBytesFrom (taken : Text) : Nat → Text → Text
  | _, [] => taken.reverse
  | n, c :: t => if n < c.utf8Size then taken.reverse else takeBytesFrom (c :: taken) (n - c.utf8Size) t

/-- The characters that lie within the first `n` bytes. -/
def takeBytes (n : Nat) (t : Text) : Text := takeBytesFrom [] n t

/-- The part from byte offset `start` up to byte offset `stop`. -/
def slice (t : Text) (start stop : Nat) : Text := takeBytes (stop - start) (dropBytes start t)

/-! ## Lines and pieces -/

/-- A line from its reversed characters: the carriage return of a line break is not part of it. -/
def closeLine : Text → Text
  | '\r' :: line => line.reverse
  | line => line.reverse

/-- The lines of a text whose first line starts with the reversed characters `line`. -/
def linesFrom (line : Text) : Text → List Text
  | [] => if line.isEmpty then [] else [line.reverse]
  | c :: t => if c = '\n' then closeLine line :: linesFrom [] t else linesFrom (c :: line) t

/-- The lines of a text, without their breaks. A break at the very end starts no further line. -/
def lines (t : Text) : List Text := linesFrom [] t

/-- The pieces of a text whose first piece starts with the reversed characters `piece`. -/
def splitFrom (sep : Char → Bool) (piece : Text) : Text → List Text
  | [] => [piece.reverse]
  | c :: t => if sep c then piece.reverse :: splitFrom sep [] t else splitFrom sep (c :: piece) t

/-- The pieces between the characters that separate; one more than there are such characters. -/
def split (sep : Char → Bool) (t : Text) : List Text := splitFrom sep [] t

/-- The piece after the last separating character, or the whole text. -/
def lastPiece (sep : Char → Bool) (t : Text) : Text := ((split sep t).getLast?).getD t

/-- The piece before the first separating character, or the whole text. -/
def firstPiece (sep : Char → Bool) (t : Text) : Text := t.takeWhile fun c => !sep c

/-! ## Trimming -/

/-- Drops the characters at the end that satisfy `p`. -/
def trimEndBy (p : Char → Bool) (t : Text) : Text := (t.reverse.dropWhile p).reverse

/-- Drops the blanks at the start. -/
def trimStart (t : Text) : Text := t.dropWhile Char.isBlank

/-- Drops the blanks at the end. -/
def trimEnd (t : Text) : Text := trimEndBy Char.isBlank t

/-- Drops the blanks at both ends. -/
def trim (t : Text) : Text := trimEnd (trimStart t)

/-- Whether the text holds nothing but blanks. -/
def isBlank (t : Text) : Bool := t.all Char.isBlank

/-- The number of bytes of blanks at the start. -/
def indent (t : Text) : Nat := byteSize (t.takeWhile Char.isBlank)

/-! ## Searching -/

/-- Whether `t` starts with `lead`. -/
def startsWith (lead t : Text) : Bool := lead.isPrefixOf t

/-- Whether `t` ends with `tail`. -/
def endsWith (tail t : Text) : Bool := tail.isSuffixOf t

/-- What follows `lead` in a text that starts with it. -/
def after? : Text → Text → Option Text
  | [], t => some t
  | _ :: _, [] => none
  | a :: lead, c :: t => if a = c then after? lead t else none

/-- What stands before `tail` in a text that ends with it. -/
def before? (tail t : Text) : Option Text := (after? tail.reverse t.reverse).map List.reverse

/-- Whether `needle` occurs in the text. -/
def occurs (needle : Text) : Text → Bool
  | [] => needle.isEmpty
  | c :: t => needle.isPrefixOf (c :: t) || occurs needle t

/-- Byte offset of the first character that satisfies `p`, counted from `pos`. -/
def findFrom? (p : Char → Bool) (pos : Nat) : Text → Option Nat
  | [] => none
  | c :: t => if p c then some pos else findFrom? p (pos + c.utf8Size) t

/-- Byte offset of the first character that satisfies `p`. -/
def find? (p : Char → Bool) (t : Text) : Option Nat := findFrom? p 0 t

/-- Byte offsets, counted from `pos`, of the occurrences of `needle` that start at `resume` or later, each after
the end of the one before. -/
def indexesFrom (needle : Text) (size pos resume : Nat) : Text → List Nat
  | [] => []
  | c :: t =>
    if resume ≤ pos && needle.isPrefixOf (c :: t) then
      pos :: indexesFrom needle size (pos + c.utf8Size) (pos + size) t
    else indexesFrom needle size (pos + c.utf8Size) resume t

/-- Byte offsets of the occurrences of a non-empty `needle`, each after the end of the one before. -/
def indexes (needle t : Text) : List Nat := indexesFrom needle (byteSize needle) 0 0 t

/-- Byte offset of the first occurrence of a non-empty `needle`. -/
def indexOf? (needle t : Text) : Option Nat := (indexes needle t).head?

/-- The texts joined, with `sep` between neighbours. -/
def join (sep : Text) (ts : List Text) : Text := sep.intercalate ts

/-- Every character `c` replaced by the text `f c`. -/
def expand (f : Char → Text) (t : Text) : Text := t.flatMap f

/-- The characters of the text with ASCII letters in lower case. -/
def toLowerAscii (t : Text) : Text := t.map Char.toLower

end Text

/-- The string of a text. -/
abbrev Text.toString (t : Text) : String := String.ofList t

end Checkup
