import Mathlib.Data.List.Basic
import Checkup.Source.Line

/-!
# The lines of texts one behind the other

Behind a text that ends with a line break (`Text.EndsLine`) the next text starts with a line of its own, so the lines of
both are the lines of the one and those of the other (`Text.lines_append`), which count on (`numberedLines_append`).
`Text.lines_terminated` is the first line, up to its line feed.
-/

namespace Checkup

variable {s t : Text} {ls : List (Nat × Text)} {n k : Nat}

namespace Text

/-- Whether what follows the text starts a line. -/
def EndsLine (t : Text) : Prop := ∀ c ∈ t.getLast?, c = '\n'

instance (t : Text) : Decidable t.EndsLine := inferInstanceAs (Decidable (∀ c ∈ t.getLast?, c = '\n'))

theorem linesFrom_append (hs : s.getLast? = some '\n') (line t : Text) :
    linesFrom line (s ++ t) = linesFrom line s ++ lines t := by
  obtain ⟨s, rfl⟩ := List.getLast?_eq_some_iff.mp hs
  clear hs
  induction s generalizing line with
  | nil => simp [linesFrom, lines]
  | cons c s ih =>
    simp only [List.cons_append, linesFrom]
    split
    · rw [ih, List.cons_append]
    · exact ih _

theorem lines_append (hs : s.EndsLine) (t : Text) : lines (s ++ t) = lines s ++ lines t := by
  cases hlast : s.getLast? with
  | none =>
    rw [List.getLast?_eq_none_iff.mp hlast]
    rfl
  | some c => exact linesFrom_append (hs c hlast ▸ hlast) [] t

theorem linesFrom_unbroken {w : Text} (hw : '\n' ∉ w) (acc t : Text) :
    linesFrom acc (w ++ t) = linesFrom (w.reverse ++ acc) t := by
  induction w generalizing acc with
  | nil => rfl
  | cons c w ih =>
    obtain ⟨hc, hw⟩ := not_or.mp (mt List.mem_cons.mpr hw)
    rw [List.cons_append, linesFrom, if_neg (Ne.symm hc), ih hw, List.reverse_cons, List.append_assoc]
    rfl

theorem lines_terminated {w : Text} (hw : '\n' ∉ w) (t : Text) :
    lines (w ++ '\n' :: t) = closeLine w.reverse :: lines t := by
  rw [lines, linesFrom_unbroken hw, List.append_nil, linesFrom, if_pos rfl, lines]

end Text

/-- The lines with numbers that are greater by the given one. -/
def lowerBy (k : Nat) (ls : List (Nat × Text)) : List (Nat × Text) := ls.map fun x => (x.1 + k, x.2)

@[simp] theorem lowerBy_nil (k : Nat) : lowerBy k [] = [] := rfl

@[simp] theorem lowerBy_cons (k n : Nat) (line : Text) (ls : List (Nat × Text)) :
    lowerBy k ((n, line) :: ls) = (n + k, line) :: lowerBy k ls := rfl

theorem numberedLines_append (hs : s.EndsLine) (t : Text) :
    numberedLines (s ++ t) = numberedLines s ++ lowerBy (Text.lines s).length (numberedLines t) := by
  simp only [numberedLines, Text.lines_append hs, List.zipIdx_append, List.map_append, lowerBy, List.map_map]
  congr 1
  rw [List.zipIdx_eq_map_add, List.map_map]
  exact List.map_congr_left fun x _ => Prod.ext (by simp only [Function.comp]; omega) rfl

end Checkup
