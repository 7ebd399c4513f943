import Checkup.Proofs.Text.Bytes
import Checkup.Text.Position

/-!
# Lines, columns and the lines of a text

* `place`: line and column behind a text; `lineCol_append`: those of an offset are the place behind the text before it.
  No two places of a text are the same (`eq_of_place_eq`).
* `exists_line`: a character that is no line break has its place in a line of the text, and not behind the end of it.
* `Breakless`: texts without line breaks.
-/

namespace Checkup.Text

/-- Line and column behind one more character. -/
def advance (lc : Nat × Nat) (c : Char) : Nat × Nat := if c = '\n' then (lc.1 + 1, 1) else (lc.1, lc.2 + 1)

/-- Line and column behind a text. -/
def place (pre : Text) : Nat × Nat := pre.foldl advance (1, 1)

theorem lineColFrom_append (pre rest : Text) (line column : Nat) :
    lineColFrom line column (byteSize pre) (pre ++ rest) = pre.foldl advance (line, column) := by
  induction pre generalizing line column with
  | nil =>
    cases rest with
    | nil => rfl
    | cons c rest => simp [lineColFrom, c.utf8Size_pos]
  | cons c pre ih =>
    rw [List.cons_append, lineColFrom, byteSize_cons, if_neg (by omega), Nat.add_sub_cancel_left, List.foldl_cons]
    by_cases hc : c = '\n'
    · rw [if_pos hc, ih, advance, if_pos hc]
    · rw [if_neg hc, ih, advance, if_neg hc]

/-- The line and column of an offset are the place behind the text before it. -/
theorem lineCol_append (pre rest : Text) : lineCol (pre ++ rest) (byteSize pre) = place pre :=
  lineColFrom_append pre rest 1 1

/-- Lines and columns do not go down. -/
theorem foldl_advance_le (pre : Text) (lc : Nat × Nat) (h : 1 ≤ lc.2) :
    lc.1 ≤ (pre.foldl advance lc).1 ∧ 1 ≤ (pre.foldl advance lc).2 := by
  induction pre generalizing lc with
  | nil => exact ⟨Nat.le_refl _, h⟩
  | cons c pre ih =>
    rw [List.foldl_cons]
    have hstep : lc.1 ≤ (advance lc c).1 ∧ 1 ≤ (advance lc c).2 := by
      unfold advance
      split
      · exact ⟨Nat.le_succ _, Nat.le_refl _⟩
      · exact ⟨Nat.le_refl _, Nat.le_add_left _ _⟩
    have := ih (advance lc c) hstep.2
    exact ⟨Nat.le_trans hstep.1 this.1, this.2⟩

theorem one_le_place (pre : Text) : 1 ≤ (place pre).1 ∧ 1 ≤ (place pre).2 :=
  foldl_advance_le pre (1, 1) (Nat.le_refl 1)

/-- Behind more text the line is a later one, or it is the same and the columns are counted on. -/
theorem foldl_advance_later (w : Text) (lc : Nat × Nat) :
    lc.1 < (w.foldl advance lc).1 ∨ lc.1 = (w.foldl advance lc).1 ∧ (w.foldl advance lc).2 = lc.2 + w.length := by
  induction w generalizing lc with
  | nil => exact Or.inr ⟨rfl, rfl⟩
  | cons c w ih =>
    rw [List.foldl_cons, List.length_cons]
    by_cases hc : c = '\n'
    · rw [advance, if_pos hc]
      rcases ih (lc.1 + 1, 1) with h | ⟨h, _⟩ <;> exact Or.inl (by omega)
    · rw [advance, if_neg hc]
      rcases ih (lc.1, lc.2 + 1) with h | ⟨h, hcolumn⟩
      · exact Or.inl h
      · exact Or.inr ⟨h, by omega⟩

/-- No two places of a text are the same. -/
theorem eq_of_place_eq {pre pre' rest rest' : Text} (htext : pre ++ rest = pre' ++ rest') (h : place pre = place pre') :
    pre = pre' := by
  have shorter {pre w : Text} (h : place (pre ++ w) = place pre) : pre ++ w = pre := by
    rw [place, List.foldl_append, ← place] at h
    have hlater := foldl_advance_later w (place pre)
    rw [h] at hlater
    have hnil : w = [] := List.length_eq_zero_iff.mp (by omega)
    rw [hnil, List.append_nil]
  rcases List.append_eq_append_iff.mp htext with ⟨w, rfl, _⟩ | ⟨w, rfl, _⟩
  · exact (shorter h.symm).symm
  · exact shorter h

/-! ## The line of a character -/

theorem length_closeLine (acc : Text) : acc.length ≤ (closeLine acc).length + 1 := by
  unfold closeLine
  split <;> simp

/-- A line of which characters have been read keeps them, but for a carriage return at the end. -/
theorem linesFrom_cons (x : Char) (acc t : Text) :
    ∃ line ls, linesFrom (x :: acc) t = line :: ls ∧ acc.length ≤ line.length ∧
      ((x = '\r' → t.head? ≠ some '\n') → acc.length < line.length) := by
  induction t generalizing x acc with
  | nil => exact ⟨(x :: acc).reverse, [], by simp [linesFrom], by simp, fun _ => by simp⟩
  | cons c t ih =>
    by_cases hc : c = '\n'
    · refine ⟨closeLine (x :: acc), linesFrom [] t, by simp [linesFrom, hc], ?_, fun h => ?_⟩
      · have := length_closeLine (x :: acc)
        simp only [List.length_cons] at this
        omega
      · have hx : x ≠ '\r' := fun e => h e (by simp [hc])
        have : closeLine (x :: acc) = (x :: acc).reverse := by
          unfold closeLine
          split
          · rename_i e; exact absurd (List.cons.inj e).1 hx
          · rfl
        rw [this]
        simp
    · obtain ⟨line, ls, h, hle, _⟩ := ih c (x :: acc)
      refine ⟨line, ls, by rw [linesFrom, if_neg hc, h], ?_, fun _ => ?_⟩
      · exact Nat.le_trans (Nat.le_succ _) hle
      · exact hle

/-- The line of a character behind `pre`, among the lines that start with the reversed characters `acc`. -/
theorem linesFrom_place (pre acc : Text) {x : Char} {rest : Text} (line : Nat) (hx : x ≠ '\n')
    (hr : x = '\r' → rest.head? ≠ some '\n') :
    ∃ l, (linesFrom acc (pre ++ x :: rest))[(pre.foldl advance (line, acc.length + 1)).1 - line]? = some l ∧
      (pre.foldl advance (line, acc.length + 1)).2 ≤ l.length := by
  induction pre generalizing acc line with
  | nil =>
    obtain ⟨l, ls, h, _, hlt⟩ := linesFrom_cons x acc rest
    refine ⟨l, ?_, hlt hr⟩
    rw [List.nil_append, linesFrom, if_neg hx, h, List.foldl_nil, Nat.sub_self]
    rfl
  | cons c pre ih =>
    rw [List.foldl_cons, List.cons_append, linesFrom]
    by_cases hc : c = '\n'
    · obtain ⟨l, hl, hle⟩ := ih [] (line + 1)
      have hle' := (foldl_advance_le pre (line + 1, 1) (Nat.le_refl 1)).1
      refine ⟨l, ?_, by rw [advance, if_pos hc]; exact hle⟩
      rw [if_pos hc, advance, if_pos hc]
      have : (pre.foldl advance (line + 1, 1)).1 - line = (pre.foldl advance (line + 1, 1)).1 - (line + 1) + 1 := by
        simp only at hle'
        omega
      simp only [this, List.getElem?_cons_succ]
      exact hl
    · rw [if_neg hc, advance, if_neg hc]
      exact ih (c :: acc) line

/-- **The line of a character.** A character that is not part of a line break has its place in a line of the text. -/
theorem exists_line (pre : Text) {x : Char} {rest : Text} (hx : x ≠ '\n') (hr : x = '\r' → rest.head? ≠ some '\n') :
    ∃ l, (lines (pre ++ x :: rest))[(place pre).1 - 1]? = some l ∧ (place pre).2 ≤ byteSize l := by
  obtain ⟨l, hl, hle⟩ := linesFrom_place pre [] 1 hx hr
  exact ⟨l, hl, Nat.le_trans hle (length_le_byteSize l)⟩

/-! ## Texts without line breaks -/

variable {t : Text} {c : Char}

/-- Whether the text holds no part of a line break. -/
def Breakless (t : Text) : Prop := '\n' ∉ t ∧ '\r' ∉ t

instance (t : Text) : Decidable (Breakless t) := inferInstanceAs (Decidable (_ ∧ _))

theorem Breakless.tail (h : Breakless (c :: t)) : Breakless t :=
  ⟨fun hn => h.1 (List.mem_cons_of_mem c hn), fun hr => h.2 (List.mem_cons_of_mem c hr)⟩

theorem Breakless.head_ne (h : Breakless (c :: t)) : c ≠ '\n' ∧ c ≠ '\r' :=
  ⟨fun e => h.1 (by simp [e]), fun e => h.2 (by simp [e])⟩

theorem Breakless.not_mem (h : Breakless t) : ∀ x ∈ t, x ∉ ['\n', '\r'] := by
  intro x hx hbreak
  simp only [List.mem_cons, List.not_mem_nil, or_false] at hbreak
  rcases hbreak with rfl | rfl
  · exact h.1 hx
  · exact h.2 hx

end Checkup.Text
