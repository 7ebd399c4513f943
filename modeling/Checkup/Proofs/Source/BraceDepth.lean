import Checkup.Proofs.Source.BraceScope

/-!
# Depth in braces

How deep a text leads in braces does not depend on scopes, so it says beforehand whether an announced scope will open.

* `StaysWithin`: no start of a text leads deeper than a limit.
* `BraceScope.exists_next`: the marks behind a step are those from before that are kept (`Mark.next`), so piece by piece
  the tags stay what they were (`BraceScope.tag_of_mem_feed`).
-/

namespace Checkup

variable {α : Type} {limit depth : Nat} {c : Char} {t u : Text}

/-- How deep a text leads in braces from a depth. -/
def braceDepth (depth : Nat) (t : Text) : Nat :=
  t.foldl (fun d c => if c = '\x7b' then d + 1 else if c = '\x7d' then d - 1 else d) depth

/-- Whether no start of a text leads deeper than the limit. -/
def StaysWithin (limit depth : Nat) (t : Text) : Prop := ∀ p, p <+: t → braceDepth depth p ≤ limit

theorem braceDepth_append (depth : Nat) (t u : Text) : braceDepth depth (t ++ u) = braceDepth (braceDepth depth t) u :=
  List.foldl_append

theorem braceDepth_le (h : '\x7b' ∉ t) (depth : Nat) : braceDepth depth t ≤ depth := by
  induction t generalizing depth with
  | nil => exact Nat.le_refl depth
  | cons c t ih =>
    obtain ⟨hc, ht⟩ := List.ne_and_not_mem_of_not_mem_cons h
    refine Nat.le_trans (ih ht _) ?_
    dsimp only
    rw [if_neg (Ne.symm hc)]
    split
    · exact Nat.sub_le depth 1
    · exact Nat.le_refl depth

/-- A text without opening braces leads no deeper. -/
theorem staysWithin_of_not_mem (h : '\x7b' ∉ t) (depth : Nat) : StaysWithin depth depth t :=
  fun _ hp => braceDepth_le (fun hmem => h (hp.subset hmem)) depth

/-- A start of two texts is one of the first, or goes on with one of the second behind it. -/
theorem forall_prefix_append {P : Text → Prop} :
    (∀ p, p <+: t ++ u → P p) ↔ (∀ p, p <+: t → P p) ∧ ∀ p, p <+: u → P (t ++ p) := by
  constructor
  · refine fun h => ⟨fun p hp => h p (hp.trans (List.prefix_append t u)), fun p hp => ?_⟩
    exact h _ ((List.prefix_append_right_inj t).mpr hp)
  · rintro ⟨ht, hu⟩ p hp
    rcases List.prefix_or_prefix_of_prefix hp (List.prefix_append t u) with hp' | ⟨p, rfl⟩
    · exact ht p hp'
    · exact hu p ((List.prefix_append_right_inj t).mp hp)

theorem staysWithin_append :
    StaysWithin limit depth (t ++ u) ↔ StaysWithin limit depth t ∧ StaysWithin limit (braceDepth depth t) u := by
  simp only [StaysWithin, forall_prefix_append, braceDepth_append]

theorem staysWithin_singleton (c : Char) :
    StaysWithin limit depth [c] ↔ depth ≤ limit ∧ braceDepth depth [c] ≤ limit := by
  refine ⟨fun h => ⟨h [] List.nil_prefix, h [c] (List.prefix_refl _)⟩, ?_⟩
  rintro ⟨hdepth, hc⟩ p hp
  rcases List.prefix_cons_iff.mp hp with rfl | ⟨p, rfl, hnil⟩
  · exact hdepth
  · obtain rfl := List.prefix_nil.mp hnil
    exact hc

namespace BraceScope

variable {s : BraceScope α} {m : Mark α} {step : Step α} {tag : α}

/-! ## The depth of the tracker -/

theorem depth_feedChar (s : BraceScope α) (c : Char) : (s.feedChar c).depth = braceDepth s.depth [c] := by
  simp only [feedChar, braceDepth, List.foldl_cons, List.foldl_nil]
  split
  · rfl
  · split <;> rfl

theorem depth_foldl (t : Text) (s : BraceScope α) : (t.foldl feedChar s).depth = braceDepth s.depth t := by
  induction t generalizing s with
  | nil => rfl
  | cons c t ih => rw [List.foldl_cons, ih, depth_feedChar, ← braceDepth_append, List.singleton_append]

@[simp] theorem depth_feed (s : BraceScope α) (t : Text) : (s.feed t).depth = braceDepth s.depth t := depth_foldl t s

@[simp] theorem depth_announce (s : BraceScope α) (tag : α) : (s.announce tag).depth = s.depth := rfl

/-! ## Marks in a step -/

/-- A mark behind a step that announces nothing is one from before. -/
theorem exists_next (hstep : step.mark? s.depth = none) (hm : m ∈ (step.apply s).marks) :
    ∃ m' ∈ s.marks, m'.next (step.apply s).depth step = some m := by
  rw [apply_marks, hstep, Option.toList_none, List.append_nil] at hm
  exact List.mem_filterMap.mp hm

/-- The tag and the depth of a mark stay what they were when the scope was announced. -/
theorem Mark.next_same {m' : Mark α} (h : m.next depth step = some m') : m'.tag = m.tag ∧ m'.depth = m.depth := by
  cases step with
  | announce tag =>
    cases h
    exact ⟨rfl, rfl⟩
  | char c =>
    rw [next] at h
    split_ifs at h <;> cases h <;> exact ⟨rfl, rfl⟩
  | endPiece =>
    rw [next] at h
    split_ifs at h <;> cases h <;> exact ⟨rfl, rfl⟩

theorem Mark.next_tag {m' : Mark α} (h : m.next depth step = some m') : m'.tag = m.tag := (next_same h).1

theorem Mark.next_depth {m' : Mark α} (h : m.next depth step = some m') : m'.depth = m.depth := (next_same h).2

/-- A mark that waits is left as it is by a character that leads no deeper than where it stands. -/
theorem Mark.next_char (hclosed : m.isOpen = false) (hdepth : depth ≤ m.depth) : m.next depth (.char c) = some m := by
  have hsame : { m with isOpen := m.isOpen || m.depth < depth } = m := by
    cases m
    simp_all
  rw [next, hsame, hclosed, Bool.false_and, if_neg Bool.false_ne_true, ite_self, ite_self]

/-- The tags of the marks behind a piece are tags from before. -/
theorem tag_of_mem_feed (hm : m ∈ (s.feed t).marks) : ∃ m' ∈ s.marks, m'.tag = m.tag := by
  have hchars (t : Text) (s : BraceScope α) (m : Mark α) (hm : m ∈ (t.foldl feedChar s).marks) :
      ∃ m' ∈ s.marks, m'.tag = m.tag := by
    induction t generalizing s with
    | nil => exact ⟨m, hm, rfl⟩
    | cons c t ih =>
      obtain ⟨m', hm', htag⟩ := ih (s.feedChar c) hm
      have hm' : m' ∈ ((Step.char c).apply s).marks := hm'
      obtain ⟨m'', hm'', hnext⟩ := exists_next rfl hm'
      exact ⟨m'', hm'', (Mark.next_tag hnext).symm.trans htag⟩
  have hm : m ∈ ((Step.endPiece).apply (t.foldl feedChar s)).marks := hm
  obtain ⟨m', hm', hnext⟩ := exists_next rfl hm
  obtain ⟨m'', hm'', htag⟩ := hchars t s m' hm'
  exact ⟨m'', hm'', htag.trans (Mark.next_tag hnext).symm⟩

theorem mem_announce : m ∈ (s.announce tag).marks ↔ m ∈ s.marks ∨ m = ⟨s.depth, false, graceLines, tag⟩ := by
  rw [announce, List.mem_append, List.mem_singleton]

/-- The innermost scope has the tag of a mark. -/
theorem exists_mem_of_innermost (h : s.innermost = some tag) : ∃ m ∈ s.marks, m.tag = tag := by
  obtain ⟨m, hm, htag⟩ := Option.map_eq_some_iff.mp h
  exact ⟨m, List.mem_reverse.mp (List.mem_of_find?_eq_some hm), htag⟩

end BraceScope

end Checkup
