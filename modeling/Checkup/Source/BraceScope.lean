import Checkup.Text.Basic

/-!
# Scopes in braces

`BraceScope` follows how deep a text is in braces, wherever they stand, and remembers scopes of interest under a tag.
A scope is announced with `announce` before the text that declares it is fed. It opens with the first brace that
goes deeper, is dropped if there is none in the next `graceLines` pieces of text, and closes with the brace that
leads back to the depth where it was announced.
-/

namespace Checkup

variable {α : Type}

/-- A scope of interest. -/
structure BraceScope.Mark (α : Type) where
  /-- how deep the text was in braces when the scope was announced -/
  depth : Nat
  isOpen : Bool
  /-- how many more pieces of text may pass before the scope opens -/
  grace : Nat
  tag : α

/-- How deep the text is in braces, and the scopes that are open or announced, the latest last. -/
structure BraceScope (α : Type) where
  depth : Nat
  marks : List (BraceScope.Mark α)

namespace BraceScope

/-- How many pieces of text may pass before an announced scope opens. -/
def graceLines : Nat := 3

/-- Before all text. -/
def start : BraceScope α := ⟨0, []⟩

/-- Whether a scope is open. -/
def isInside (s : BraceScope α) : Bool := s.marks.any Mark.isOpen

/-- The tag of the latest scope that is open. -/
def innermost (s : BraceScope α) : Option α := (s.marks.reverse.find? Mark.isOpen).map Mark.tag

/-- Announces a scope. -/
def announce (tag : α) (s : BraceScope α) : BraceScope α :=
  { s with marks := s.marks ++ [⟨s.depth, false, graceLines, tag⟩] }

/-- One character. -/
def feedChar (s : BraceScope α) (c : Char) : BraceScope α :=
  if c = '\x7b' then
    ⟨s.depth + 1, s.marks.map fun m => { m with isOpen := m.isOpen || m.depth < s.depth + 1 }⟩
  else if c = '\x7d' then
    ⟨s.depth - 1, s.marks.filter fun m => !(m.isOpen && s.depth - 1 ≤ m.depth)⟩
  else s

/-- The end of a piece of text: a scope that has waited for too long is dropped. -/
def endPiece (s : BraceScope α) : BraceScope α :=
  let waited := s.marks.map fun m => if m.isOpen then m else { m with grace := m.grace - 1 }
  { s with marks := waited.filter fun m => m.isOpen || 0 < m.grace }

/-- One piece of text. -/
def feed (s : BraceScope α) (t : Text) : BraceScope α := (t.foldl feedChar s).endPiece

end BraceScope

end Checkup
