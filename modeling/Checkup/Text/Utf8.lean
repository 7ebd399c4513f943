import Checkup.Text.Basic

/-!
# Texts from bytes

A character takes one to four bytes in UTF-8. The reader keeps the part of a character that it has seen; a byte that
cannot continue the part breaks it off and starts anew.

* `Utf8.decode`: the characters of a sequence of bytes, with nothing in place of each part that breaks off.
* `Utf8.text?`: the text, if nothing breaks off.
* `Utf8.lossyText`: the text with a replacement character for each part that breaks off.
-/

namespace Checkup.Utf8

/-- The start of a character: the bits so far, how many bytes are missing, and the bounds of the next one. -/
structure Partial where
  bits : Nat
  missing : Nat
  low : Nat
  high : Nat

/-- What a byte leads to: characters or gaps that are complete, and the start of a further character. -/
abbrev Step := List (Option Char) × Option Partial

/-- A byte at the start of a character. -/
def first (b : Nat) : Step :=
  if b < 0x80 then ([some (Char.ofNat b)], none)
  else if 0xC2 ≤ b ∧ b ≤ 0xDF then ([], some ⟨b - 0xC0, 1, 0x80, 0xBF⟩)
  else if b = 0xE0 then ([], some ⟨0, 2, 0xA0, 0xBF⟩)
  else if b = 0xED then ([], some ⟨0xD, 2, 0x80, 0x9F⟩)
  else if 0xE1 ≤ b ∧ b ≤ 0xEF then ([], some ⟨b - 0xE0, 2, 0x80, 0xBF⟩)
  else if b = 0xF0 then ([], some ⟨0, 3, 0x90, 0xBF⟩)
  else if 0xF1 ≤ b ∧ b ≤ 0xF3 then ([], some ⟨b - 0xF0, 3, 0x80, 0xBF⟩)
  else if b = 0xF4 then ([], some ⟨4, 3, 0x80, 0x8F⟩)
  else ([none], none)

/-- A byte that continues a character. -/
def Partial.extend (p : Partial) (b : Nat) : Step :=
  let bits := p.bits * 64 + (b - 0x80)
  if p.missing ≤ 1 then ([some (Char.ofNat bits)], none) else ([], some ⟨bits, p.missing - 1, 0x80, 0xBF⟩)

/-- A byte. -/
def step (s : Option Partial) (b : Nat) : Step :=
  match s with
  | none => first b
  | some p => if p.low ≤ b ∧ b ≤ p.high then p.extend b else (none :: (first b).1, (first b).2)

/-- The characters and gaps of the bytes that follow the start of a character. -/
def decodeFrom (s : Option Partial) : List UInt8 → List (Option Char)
  | [] => if s.isSome then [none] else []
  | b :: bs => (step s b.toNat).1 ++ decodeFrom (step s b.toNat).2 bs

/-- The characters of the bytes, with a gap for each part of a character that breaks off. -/
def decode (bs : List UInt8) : List (Option Char) := decodeFrom none bs

/-- The text of the bytes, if they have one. -/
def text? (bs : List UInt8) : Option Text := (decode bs).mapM id

/-- The text of the bytes with replacement characters in the gaps. -/
def lossyText (bs : List UInt8) : Text := (decode bs).map fun c => c.getD '\ufffd'

end Checkup.Utf8
