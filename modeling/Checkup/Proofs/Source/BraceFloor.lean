import Checkup.Proofs.Source.BraceDepth
import Checkup.Proofs.Text.Bracket

/-!
# Scopes around a text

A text that leads nowhere out of the depth where it starts, as a balanced one does, leaves the scopes around it open.
What becomes of the scopes that wait there is up to its braces and to how many pieces it has.

* `StaysAbove`: no start of a text leads out of a floor. `Balanced.staysAbove` says so of a balanced text.
* `BraceScope.Settled`: a scope is open just if the text is deeper than where it was announced. All steps keep this
  (`Settled.run`).
* `Settled.outer_run`: the scopes outside a floor are left as they are.
* `Settled.waits`: a scope that still waits was not led deeper, and waits for as many pieces less as have ended.
-/

namespace Checkup

variable {α : Type} {floor depth : Nat} {t u : Text}

/-! ## Floors -/

/-- Whether no start of a text leads out of the floor. -/
def StaysAbove (floor depth : Nat) (t : Text) : Prop := ∀ p, p <+: t → floor ≤ braceDepth depth p

theorem StaysAbove.le (h : StaysAbove floor depth t) : floor ≤ depth := h [] List.nil_prefix

theorem staysAbove_append :
    StaysAbove floor depth (t ++ u) ↔ StaysAbove floor depth t ∧ StaysAbove floor (braceDepth depth t) u := by
  simp only [StaysAbove, forall_prefix_append, braceDepth_append]

theorem staysAbove_singleton (c : Char) :
    StaysAbove floor depth [c] ↔ floor ≤ depth ∧ floor ≤ braceDepth depth [c] := by
  refine ⟨fun h => ⟨h.le, h [c] (List.prefix_refl _)⟩, ?_⟩
  rintro ⟨hdepth, hc⟩ p hp
  rcases List.prefix_cons_iff.mp hp with rfl | ⟨p, rfl, hnil⟩
  · exact hdepth
  · obtain rfl := List.prefix_nil.mp hnil
    exact hc

theorem StaysAbove.mono {floor' : Nat} (h : StaysAbove floor depth t) (hle : floor' ≤ floor) :
    StaysAbove floor' depth t :=
  fun p hp => Nat.le_trans hle (h p hp)

/-- A character that is no brace. -/
theorem braceDepth_other {c : Char} (hopener : c ≠ '\x7b') (hcloser : c ≠ '\x7d') (depth : Nat) :
    braceDepth depth [c] = depth := by
  simp [braceDepth, hopener, hcloser]

theorem braceDepth_cons (depth : Nat) (c : Char) (t : Text) :
    braceDepth depth (c :: t) = braceDepth (braceDepth depth [c]) t :=
  braceDepth_append depth [c] t

/-- A balanced text leads to where it starts. -/
theorem Text.Balanced.braceDepth (h : Balanced '\x7b' '\x7d' t) (depth : Nat) : braceDepth depth t = depth := by
  induction h generalizing depth with
  | nil => rfl
  | other hopener hcloser _ ih => rw [braceDepth_cons, braceDepth_other hopener hcloser, ih]
  | nested _ _ ihs iht =>
    rw [braceDepth_cons, braceDepth_append, ihs, braceDepth_cons, iht]
    rfl

/-- A balanced text leads nowhere out of where it starts. -/
theorem Text.Balanced.staysAbove (h : Balanced '\x7b' '\x7d' t) (depth : Nat) : StaysAbove depth depth t := by
  induction h generalizing depth with
  | nil =>
    intro p hp
    rw [List.prefix_nil.mp hp]
    exact Nat.le_refl depth
  | @other c t hopener hcloser _ ih =>
    have hsame := braceDepth_other hopener hcloser depth
    rw [← List.singleton_append, staysAbove_append, staysAbove_singleton, hsame]
    exact ⟨⟨Nat.le_refl depth, Nat.le_refl depth⟩, ih depth⟩
  | @nested s t hs _ ihs iht =>
    have hback : Checkup.braceDepth (depth + 1) ['\x7d'] = depth := rfl
    rw [← List.singleton_append, ← List.singleton_append (l := t), staysAbove_append, staysAbove_append,
      staysAbove_append, staysAbove_singleton, staysAbove_singleton,
      show Checkup.braceDepth depth ['\x7b'] = depth + 1 from rfl, hs.braceDepth, hback]
    exact ⟨⟨Nat.le_refl depth, Nat.le_succ depth⟩, (ihs (depth + 1)).mono (Nat.le_succ depth),
      ⟨Nat.le_succ depth, Nat.le_refl depth⟩, iht depth⟩

/-- A text that leads neither in nor out has no opening brace. -/
theorem not_mem_of_stays (hwithin : StaysWithin depth depth t) (habove : StaysAbove depth depth t) : '\x7b' ∉ t := by
  intro hmem
  obtain ⟨u, v, rfl⟩ := List.append_of_mem hmem
  have hle := hwithin (u ++ ['\x7b']) (by simp)
  have hge := habove u (List.prefix_append _ _)
  rw [braceDepth_append] at hle
  exact absurd (Nat.lt_of_lt_of_le (Nat.lt_succ_of_le hge) hle) (Nat.lt_irrefl _)

namespace BraceScope

variable {s : BraceScope α} {m : Mark α} {step : Step α} {steps : List (Step α)} {tag : α}
  {marks marks' : List (Mark α)}

/-! ## The characters of steps -/

/-- The character of a step, as a text. -/
def Step.text : Step α → Text
  | .char c => [c]
  | _ => []

theorem depth_apply (s : BraceScope α) (step : Step α) : (step.apply s).depth = braceDepth s.depth step.text := by
  cases step with
  | announce tag => rfl
  | char c => exact depth_feedChar s c
  | endPiece => rfl

theorem depth_run (steps : List (Step α)) (s : BraceScope α) :
    (steps.foldl Step.apply s).depth = braceDepth s.depth (steps.flatMap Step.text) := by
  induction steps generalizing s with
  | nil => rfl
  | cons step steps ih => rw [List.foldl_cons, ih, depth_apply, ← braceDepth_append, List.flatMap_cons]

theorem eq_of_prefix_text {p : Text} (hp : p <+: step.text) : p = [] ∨ p = step.text := by
  cases step with
  | char c =>
    rcases List.prefix_cons_iff.mp hp with rfl | ⟨p, rfl, hnil⟩
    · exact Or.inl rfl
    · exact Or.inr (by rw [List.prefix_nil.mp hnil]; rfl)
  | announce tag => exact Or.inl (List.prefix_nil.mp hp)
  | endPiece => exact Or.inl (List.prefix_nil.mp hp)

theorem text_chars (t : Text) : (t.map (Step.char : Char → Step α)).flatMap Step.text = t := by
  rw [List.flatMap_map]
  exact List.flatMap_singleton' t

theorem text_steps (t : Text) : (Call.feed t : Call α).steps.flatMap Step.text = t := by
  rw [Call.steps, List.flatMap_append, text_chars]
  exact List.append_nil t

/-- Whether the step announces nothing. -/
def Step.isSilent : Step α → Bool
  | .announce _ => false
  | _ => true

theorem Step.mark?_of_isSilent (h : step.isSilent = true) (depth : Nat) : step.mark? depth = none := by
  cases step with
  | announce tag => cases h
  | char c => rfl
  | endPiece => rfl

theorem silent_steps (t : Text) : ∀ step ∈ (Call.feed t : Call α).steps, step.isSilent = true := by
  rw [Call.steps]
  refine List.forall_mem_append.mpr ⟨List.forall_mem_map.mpr fun c _ => rfl, fun step hstep => ?_⟩
  rw [List.mem_singleton.mp hstep]
  rfl

theorem ends_chars (t : Text) : (t.map (Step.char : Char → Step α)).countP Step.isEnd = 0 := by
  rw [List.countP_map]
  exact List.countP_eq_zero.mpr fun c _ => Bool.false_ne_true

theorem ends_steps (t : Text) : (Call.feed t : Call α).steps.countP Step.isEnd = 1 := by
  rw [Call.steps, List.countP_append, ends_chars]
  rfl

/-- Pieces of text, one after the other. -/
theorem flatMap_steps (ts : List Text) :
    (∀ step ∈ (ts.flatMap fun t => (Call.feed t : Call α).steps), step.isSilent = true) ∧
      (ts.flatMap fun t => (Call.feed t : Call α).steps).flatMap Step.text = ts.flatten ∧
      (ts.flatMap fun t => (Call.feed t : Call α).steps).countP Step.isEnd = ts.length := by
  refine ⟨List.forall_mem_flatMap.mpr fun t _ => silent_steps t, ?_, ?_⟩
  · rw [List.flatMap_assoc]
    simp only [text_steps]
    exact List.flatMap_id
  · rw [List.countP_flatMap]
    simp [Function.comp_def, ends_steps]

/-! ## Settled scopes -/

/-- Whether a scope is open just if the text is deeper than where it was announced. -/
def Settled (s : BraceScope α) : Prop := ∀ m ∈ s.marks, m.isOpen = true ↔ m.depth < s.depth

/-- An open scope is left as it is, or closed by a brace that leads back. -/
theorem Mark.next_of_isOpen (hopen : m.isOpen = true) :
    m.next depth step = if step.text = ['\x7d'] ∧ depth ≤ m.depth then none else some m := by
  have hsame : ({ m with isOpen := true } : Mark α) = m := by
    cases m
    simp_all
  cases step with
  | announce tag => rfl
  | endPiece => simp [next, hopen, Step.text]
  | char c =>
    by_cases hc : c = '\x7d'
    · simp [next, hc, hopen, Step.text]
    · simp [next, hc, hopen, Step.text, hsame]

/-- A scope that waits behind a step waited before it. -/
theorem Mark.waits_of_next {m' : Mark α} (h : m'.next depth step = some m) (hclosed : m.isOpen = false) :
    m'.isOpen = false ∧ m'.grace = m.grace + (if step.isEnd then 1 else 0) ∧ (step.isEnd = true → 0 < m.grace) := by
  have hclosed' : m'.isOpen = false := by
    by_contra hopen
    rw [next_of_isOpen (by simpa using hopen)] at h
    split_ifs at h
    cases h
    simp [hclosed] at hopen
  refine ⟨hclosed', ?_⟩
  cases step with
  | announce tag =>
    cases h
    exact ⟨rfl, fun hend => by cases hend⟩
  | endPiece =>
    rw [next, hclosed', if_neg Bool.false_ne_true] at h
    split_ifs at h with hlast
    cases h
    simp only [Step.isEnd, if_true]
    omega
  | char c =>
    rw [next] at h
    split_ifs at h <;> cases h <;> exact ⟨rfl, fun hend => by cases hend⟩

namespace Settled

theorem start : Settled (start : BraceScope α) := fun _ hm => absurd hm List.not_mem_nil

/-- Every step keeps scopes settled. -/
theorem apply (h : Settled s) (step : Step α) : Settled (step.apply s) := by
  intro m hm
  rw [apply_marks] at hm
  rcases List.mem_append.mp hm with hm | hm
  · obtain ⟨m', hm', hnext⟩ := List.mem_filterMap.mp hm
    have hiff := h m' hm'
    cases step with
    | announce tag =>
      cases hnext
      exact hiff
    | endPiece =>
      rw [Mark.next] at hnext
      split_ifs at hnext <;> cases hnext <;> exact hiff
    | char c =>
      have hdepth : ((Step.char c).apply s).depth =
          if c = '\x7b' then s.depth + 1 else if c = '\x7d' then s.depth - 1 else s.depth := depth_apply s (.char c)
      rw [Mark.next] at hnext
      generalize ((Step.char c).apply s).depth = d at hdepth hnext ⊢
      split_ifs at hdepth hnext with hopener hcloser hback
      · cases hnext
        simp only [Bool.or_eq_true, hiff, decide_eq_true_eq]
        omega
      · cases hnext
        simp only [Bool.and_eq_true, hiff, decide_eq_true_eq, not_and, Nat.not_le] at hback ⊢
        omega
      · cases hnext
        rw [hdepth]
        exact hiff
  · cases step with
    | announce tag =>
      cases List.mem_singleton.mp hm
      simp [Step.apply]
    | char c => cases hm
    | endPiece => cases hm

theorem run (h : Settled s) (steps : List (Step α)) : Settled (steps.foldl Step.apply s) := by
  induction steps generalizing s with
  | nil => exact h
  | cons step steps ih => exact ih (h.apply step)

theorem feed (h : Settled s) (t : Text) : Settled (s.feed t) := by
  have hrun := h.run (Call.feed t).steps
  rwa [foldl_steps] at hrun

theorem announce (h : Settled s) (tag : α) : Settled (s.announce tag) := h.apply (.announce tag)

theorem le_of_waits (h : Settled s) (hm : m ∈ s.marks) (hclosed : m.isOpen = false) : s.depth ≤ m.depth :=
  Nat.le_of_not_lt fun hlt => by simp [(h m hm).mpr hlt] at hclosed

/-- The innermost scope is the latest one around the text. -/
theorem innermost_eq (h : Settled s) : s.innermost = ((s.marks.filter (·.depth < s.depth)).getLast?).map Mark.tag := by
  rw [innermost, ← List.head?_filter, List.filter_reverse, List.head?_reverse]
  congr 2
  refine List.filter_congr fun m hm => ?_
  rw [Bool.eq_iff_iff, h m hm, decide_eq_true_eq]

/-- A step that does not lead out of a floor leaves the scopes outside of it as they are. -/
theorem outer_apply (h : Settled s) (hbefore : floor ≤ s.depth) (hbehind : floor ≤ (step.apply s).depth) :
    (step.apply s).marks.filter (·.depth < floor) = s.marks.filter (·.depth < floor) := by
  have hnew : ((step.mark? s.depth).toList).filter (fun m => m.depth < floor) = [] := by
    cases step with
    | announce tag => simpa [Step.mark?] using hbefore
    | char c => rfl
    | endPiece => rfl
  rw [apply_marks, List.filter_append, hnew, List.append_nil, List.filter_filterMap, ← List.filterMap_eq_filter]
  refine List.filterMap_congr fun m hm => ?_
  by_cases hout : m.depth < floor
  · have hopen := (h m hm).mpr (Nat.lt_of_lt_of_le hout hbefore)
    rw [Mark.next_of_isOpen hopen, if_neg fun hback => by omega]
    simp [hout]
  · rw [Option.guard_eq_none_iff.mpr (by simpa using hout), Option.filter_eq_none_iff]
    intro m' hnext
    rw [Mark.next_depth hnext]
    simpa using hout

/-- **Text inside of a floor** leaves the scopes outside of it as they are. -/
theorem outer_run (h : Settled s) (hsteps : StaysAbove floor s.depth (steps.flatMap Step.text)) :
    (steps.foldl Step.apply s).marks.filter (·.depth < floor) = s.marks.filter (·.depth < floor) := by
  induction steps generalizing s with
  | nil => rfl
  | cons step steps ih =>
    rw [List.flatMap_cons, staysAbove_append, ← depth_apply] at hsteps
    rw [List.foldl_cons, ih (h.apply step) hsteps.2, h.outer_apply hsteps.1.le hsteps.2.le]

/-- **A scope that still waits** was not led deeper, and waits for as many pieces less as have ended. -/
theorem waits (h : Settled s) (hsilent : ∀ step ∈ steps, step.isSilent = true)
    (hm : m ∈ (steps.foldl Step.apply s).marks) (hclosed : m.isOpen = false) :
    ∃ m' ∈ s.marks, m'.isOpen = false ∧ m'.depth = m.depth ∧ m'.grace = m.grace + steps.countP Step.isEnd ∧
      (0 < steps.countP Step.isEnd → 0 < m.grace) ∧ StaysWithin m.depth s.depth (steps.flatMap Step.text) := by
  induction steps generalizing s with
  | nil =>
    refine ⟨m, hm, hclosed, rfl, rfl, fun hpos => absurd hpos (Nat.lt_irrefl 0), fun p hp => ?_⟩
    obtain rfl := List.prefix_nil.mp hp
    exact h.le_of_waits hm hclosed
  | cons step steps ih =>
    obtain ⟨hstep, hsilent⟩ := List.forall_mem_cons.mp hsilent
    obtain ⟨m₁, hm₁, hclosed₁, hdepth, hgrace, hpos, hwithin⟩ := ih (h.apply step) hsilent hm
    obtain ⟨m', hm', hnext⟩ := exists_next (Step.mark?_of_isSilent hstep _) hm₁
    obtain ⟨hclosed', hgrace', hpos'⟩ := Mark.waits_of_next hnext hclosed₁
    refine ⟨m', hm', hclosed', (Mark.next_depth hnext).symm.trans hdepth, ?_, ?_, ?_⟩
    · rw [List.countP_cons, hgrace', hgrace, Nat.add_assoc]
    · rw [List.countP_cons]
      intro hends
      by_cases hrest : 0 < steps.countP Step.isEnd
      · exact hpos hrest
      · have hend : step.isEnd = true := by
          by_contra hend
          simp only [hend, if_false] at hends
          omega
        have := hpos' hend
        omega
    · have hbefore := h.le_of_waits hm' hclosed'
      have hbehind := (h.apply step).le_of_waits hm₁ hclosed₁
      rw [← Mark.next_depth hnext, hdepth] at hbefore
      rw [hdepth, depth_apply] at hbehind
      rw [List.flatMap_cons, staysWithin_append, ← depth_apply]
      refine ⟨fun p hp => ?_, hwithin⟩
      rcases eq_of_prefix_text hp with rfl | rfl
      · exact hbefore
      · exact hbehind

/-! ### One piece -/

theorem outer_feed (h : Settled s) (ht : StaysAbove floor s.depth t) :
    (s.feed t).marks.filter (·.depth < floor) = s.marks.filter (·.depth < floor) := by
  have ht : StaysAbove floor s.depth ((Call.feed t : Call α).steps.flatMap Step.text) := by rwa [text_steps]
  have houter := h.outer_run ht
  rwa [foldl_steps] at houter

/-- A balanced piece leaves the innermost scope as it is. -/
theorem innermost_feed (h : Settled s) (ht : Text.Balanced '\x7b' '\x7d' t) : (s.feed t).innermost = s.innermost := by
  rw [(h.feed t).innermost_eq, depth_feed, ht.braceDepth, h.outer_feed (ht.staysAbove s.depth), h.innermost_eq]

theorem waits_feed (h : Settled s) (hm : m ∈ (s.feed t).marks) (hclosed : m.isOpen = false) :
    ∃ m' ∈ s.marks, m'.isOpen = false ∧ m'.depth = m.depth ∧ m'.grace = m.grace + 1 := by
  have hm : m ∈ ((Call.feed t).steps.foldl Step.apply s).marks := by rwa [foldl_steps]
  obtain ⟨m', hm', hclosed', hdepth, hgrace, _⟩ := h.waits (silent_steps t) hm hclosed
  rw [ends_steps] at hgrace
  exact ⟨m', hm', hclosed', hdepth, hgrace⟩

end Settled

/-! ## A scope that is announced in front of a text -/

theorem apply_of_isSilent (hstep : step.isSilent = true) (s : BraceScope α) :
    step.apply s = ⟨braceDepth s.depth step.text,
      s.marks.filterMap fun m => m.next (braceDepth s.depth step.text) step⟩ := by
  have hmarks := apply_marks s step
  rw [Step.mark?_of_isSilent hstep, Option.toList_none, List.append_nil, depth_apply] at hmarks
  rw [← hmarks, ← depth_apply]

/-- Without announcements each mark is on its own. -/
theorem marks_run_append (hsilent : ∀ step ∈ steps, step.isSilent = true) (depth : Nat) (marks marks' : List (Mark α)) :
    (steps.foldl Step.apply ⟨depth, marks ++ marks'⟩).marks =
      (steps.foldl Step.apply ⟨depth, marks⟩).marks ++ (steps.foldl Step.apply ⟨depth, marks'⟩).marks := by
  induction steps generalizing depth marks marks' with
  | nil => rfl
  | cons step steps ih =>
    obtain ⟨hstep, hsilent⟩ := List.forall_mem_cons.mp hsilent
    rw [List.foldl_cons, List.foldl_cons, List.foldl_cons, apply_of_isSilent hstep, apply_of_isSilent hstep,
      apply_of_isSilent hstep, List.filterMap_append, ih hsilent]

theorem Mark.next_waiting {grace : Nat} (hbrace : '\x7b' ∉ step.text) (hgrace : (if step.isEnd then 1 else 0) < grace)
    (depth : Nat) : (⟨floor, false, grace, tag⟩ : Mark α).next depth step =
      some ⟨floor, false, grace - (if step.isEnd then 1 else 0), tag⟩ := by
  cases step with
  | announce tag => rfl
  | endPiece =>
    simp only [Step.isEnd, if_true] at hgrace
    simp [next, Step.isEnd, Nat.not_le.mpr hgrace]
  | char c =>
    have hc : c ≠ '\x7b' := fun hc => hbrace (by simp [Step.text, hc])
    simp [next, hc, Step.isEnd]

/-- A scope waits until a brace opens or its grace is over. -/
theorem marks_run_waiting (hsilent : ∀ step ∈ steps, step.isSilent = true) (hbrace : '\x7b' ∉ steps.flatMap Step.text)
    (depth : Nat) {grace : Nat} (hgrace : steps.countP Step.isEnd < grace) :
    (steps.foldl Step.apply ⟨depth, [⟨floor, false, grace, tag⟩]⟩).marks =
      [⟨floor, false, grace - steps.countP Step.isEnd, tag⟩] := by
  induction steps generalizing depth grace with
  | nil => rfl
  | cons step steps ih =>
    obtain ⟨hstep, hsilent⟩ := List.forall_mem_cons.mp hsilent
    rw [List.flatMap_cons, List.mem_append, not_or] at hbrace
    rw [List.countP_cons] at hgrace
    have hnext : (⟨floor, false, grace, tag⟩ : Mark α).next (braceDepth depth step.text) step =
        some ⟨floor, false, grace - (if step.isEnd then 1 else 0), tag⟩ := Mark.next_waiting hbrace.1 (by omega) _
    rw [List.foldl_cons, List.countP_cons, apply_of_isSilent hstep]
    simp only [List.filterMap_cons, List.filterMap_nil, hnext]
    rw [ih hsilent hbrace.2 _ (by omega), Nat.sub_sub, Nat.add_comm]

/-- **A scope that is announced in front of a text** which leads back to where it starts, and nowhere out, waits
behind it if the text has no opening brace and no more pieces than it may wait for. Otherwise it is gone. Of the other
scopes those around the text are left, if the others may wait for no more pieces than the text has. -/
theorem Settled.run_announced (h : Settled s) (hsilent : ∀ step ∈ steps, step.isSilent = true)
    (habove : StaysAbove s.depth s.depth (steps.flatMap Step.text))
    (hback : braceDepth s.depth (steps.flatMap Step.text) = s.depth) (hends : 0 < steps.countP Step.isEnd)
    (hgrace : ∀ m ∈ s.marks, m.isOpen = false → m.grace ≤ steps.countP Step.isEnd) (tag : α) :
    (steps.foldl Step.apply (s.announce tag)).marks = s.marks.filter (·.depth < s.depth) ++
      (if '\x7b' ∉ steps.flatMap Step.text ∧ steps.countP Step.isEnd < graceLines then
        [⟨s.depth, false, graceLines - steps.countP Step.isEnd, tag⟩] else []) := by
  -- behind the text a scope that is not around it waits
  have hclosed {marks : List (Mark α)} {m : Mark α} (hsettled : Settled ⟨s.depth, marks⟩)
      (hm : m ∈ (steps.foldl Step.apply ⟨s.depth, marks⟩).marks) (hdepth : s.depth ≤ m.depth) : m.isOpen = false := by
    have hiff := hsettled.run steps m hm
    rw [depth_run, hback] at hiff
    exact Bool.eq_false_iff.mpr fun hopen => Nat.not_lt.mpr hdepth (hiff.mp hopen)
  rw [BraceScope.announce, marks_run_append hsilent]
  congr 1
  · rw [← h.outer_run habove, List.filter_eq_self.mpr]
    intro m hm
    refine decide_eq_true (Nat.lt_of_not_le fun hdepth => ?_)
    obtain ⟨m', hm', hclosed', _, hgrace', hpos, _⟩ := h.waits hsilent hm (hclosed h hm hdepth)
    have := hgrace m' hm' hclosed'
    have := hpos hends
    omega
  · have hsettled : Settled (⟨s.depth, [⟨s.depth, false, graceLines, tag⟩]⟩ : BraceScope α) := by
      intro m hm
      obtain rfl := List.mem_singleton.mp hm
      simp
    split_ifs with hwaits
    · exact marks_run_waiting hsilent hwaits.1 s.depth hwaits.2
    · refine List.eq_nil_iff_forall_not_mem.mpr fun m hm => hwaits ?_
      have hdepth : s.depth ≤ m.depth := by
        by_contra hlt
        have hmem : m ∈ ((steps.foldl Step.apply ⟨s.depth, [⟨s.depth, false, graceLines, tag⟩]⟩).marks).filter
            (·.depth < s.depth) :=
          List.mem_filter.mpr ⟨hm, decide_eq_true (Nat.lt_of_not_le hlt)⟩
        rw [hsettled.outer_run habove] at hmem
        simp at hmem
      obtain ⟨m', hm', _, hdepth', hgrace', hpos, hwithin⟩ := hsettled.waits hsilent hm (hclosed hsettled hm hdepth)
      obtain rfl := List.mem_singleton.mp hm'
      have := hpos hends
      rw [← hdepth'] at hwithin
      exact ⟨not_mem_of_stays hwithin habove, by dsimp only at hgrace'; omega⟩

end BraceScope

end Checkup
