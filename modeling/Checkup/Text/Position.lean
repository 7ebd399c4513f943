import Checkup.Text.Basic

/-!
# Lines, columns and brackets

* `Text.lineCol`: the line and column of a byte offset. Both count from one, and columns count characters.
* `Text.lineColWord`: the same in words of 32 bits, in which the counts wrap around.
* `Text.blockEnd`: the offset of the bracket that closes the one at an offset. Brackets of one kind are counted
  wherever they stand, also in strings and comments.
* `Text.findAfter`: the first occurrence of a character from an offset on.
-/

namespace Checkup.Text

/-- The line and column `n` bytes into a text whose first character has the given line and column. -/
def lineColFrom (line column : Nat) : Nat → Text → Nat × Nat
  | _, [] => (line, column)
  | n, c :: t =>
    if n < c.utf8Size then (line, column)
    else if c = '\n' then lineColFrom (line + 1) 1 (n - c.utf8Size) t
    else lineColFrom line (column + 1) (n - c.utf8Size) t

/-- The line and column of a byte offset. An offset inside a character counts as the start of the character, one
behind the end of the text as the end. The numbers are not bounded; those of a text of less than `2 ^ 32 - 1` bytes fit
in words of 32 bits. -/
def lineCol (t : Text) (offset : Nat) : Nat × Nat := lineColFrom 1 1 offset t

/-- The line and column of a byte offset in words of 32 bits: one more than the numbers of line feeds before the offset
and of characters behind the last of them. -/
def lineColWord (t : Text) (offset : Nat) : UInt32 × UInt32 :=
  let before := takeBytes offset t
  let line := before.reverse.takeWhile fun c => c != '\n'
  (UInt32.ofNat (before.count '\n') + 1, UInt32.ofNat line.length + 1)

/-- The bracket that closes an opening bracket. -/
def closer? : Char → Option Char
  | '\x7b' => some '\x7d'
  | '(' => some ')'
  | '[' => some ']'
  | _ => none

/-- The offset of the closing bracket that brings the depth down to zero. -/
def closeFrom (opener closer : Char) (depth pos : Nat) : Text → Option Nat
  | [] => none
  | c :: t =>
    if c = opener then closeFrom opener closer (depth + 1) (pos + c.utf8Size) t
    else if c = closer then
      if depth ≤ 1 then some pos else closeFrom opener closer (depth - 1) (pos + c.utf8Size) t
    else closeFrom opener closer depth (pos + c.utf8Size) t

/-- The offset of the bracket that closes the one at offset `opening`. -/
def blockEnd (t : Text) (opening : Nat) : Option Nat :=
  match dropBytes? opening t with
  | some (c :: rest) => (closer? c).bind fun closer => closeFrom c closer 0 opening (c :: rest)
  | _ => none

/-- The offset of the first `c` at `start` or behind, if a character of the text starts there. -/
def findAfter (t : Text) (start : Nat) (c : Char) : Option Nat :=
  (dropBytes? start t).bind (findFrom? (· == c) start)

end Checkup.Text
