import Checkup.Proofs.Source.BraceFloor

/-!
# How far a scope reaches

Whether a scope is open behind some pieces of text is up to their braces alone: the first one that leads deeper has to
stand in a piece for which the scope waits, and no brace behind it may lead back.

* `ScopeReaches`: this condition on the pieces; `scopeReaches_cons`: what it asks of the first one.
* `BraceScope.isInside_run_open`: what becomes of an open scope.
* `BraceScope.isInside_feeds`: a tracker that knows no other scope is in the scope just if it reaches behind the pieces.
* `BraceScope.marks_feeds_append`: scopes do not matter to each other.
-/

namespace Checkup

variable {α : Type} {limit grace depth : Nat} {t u v : Text} {ts : List Text}

/-! ## The first brace that leads deeper -/

/-- Whether a scope that was announced at the depth `limit` is open behind pieces of text which are read from a depth
on, if it waits for so many of them. -/
def ScopeReaches (limit grace depth : Nat) (ts : List Text) : Prop :=
  ∃ u v, ts.flatten = u ++ '\x7b' :: v ∧ u.length < (ts.take grace).flatten.length ∧
    StaysWithin limit depth u ∧ braceDepth depth u = limit ∧ StaysAbove (limit + 1) (limit + 1) v

/-- A text stays within the limit, or there is a first brace that leads deeper. -/
theorem staysWithin_or_exists (h : depth ≤ limit) (t : Text) :
    StaysWithin limit depth t ∨ ∃ u v, t = u ++ '\x7b' :: v ∧ StaysWithin limit depth u ∧
    braceDepth depth u = limit := by
  have hnil {depth : Nat} (h : depth ≤ limit) : StaysWithin limit depth [] := fun p hp => by
    rw [List.prefix_nil.mp hp]
    exact h
  induction t generalizing depth with
  | nil => exact Or.inl (hnil h)
  | cons c t ih =>
    by_cases hfirst : c = '\x7b' ∧ depth = limit
    · obtain ⟨rfl, rfl⟩ := hfirst
      exact Or.inr ⟨[], t, rfl, hnil h, rfl⟩
    · have hc : braceDepth depth [c] ≤ limit := by
        rw [show braceDepth depth [c] = if c = '\x7b' then depth + 1 else if c = '\x7d' then depth - 1
          else depth from rfl]
        split_ifs with hopener hcloser
        · have : depth ≠ limit := fun hdepth => hfirst ⟨hopener, hdepth⟩
          omega
        · omega
        · exact h
      have hone : StaysWithin limit depth [c] := (staysWithin_singleton c).mpr ⟨h, hc⟩
      rcases ih hc with hwithin | ⟨u, v, rfl, hwithin, hdepth⟩
      · exact Or.inl (staysWithin_append.mpr ⟨hone, hwithin⟩)
      · refine Or.inr ⟨c :: u, v, rfl, staysWithin_append.mpr ⟨hone, hwithin⟩, ?_⟩
        rw [braceDepth_cons, hdepth]

/-- The brace behind a text that leads to the limit leads deeper. -/
theorem not_staysWithin (hdepth : braceDepth depth u = limit) : ¬ StaysWithin limit depth (u ++ '\x7b' :: v) := by
  intro h
  have hle := h (u ++ ['\x7b']) ⟨v, by simp⟩
  rw [braceDepth_append, hdepth] at hle
  exact absurd hle (Nat.not_le.mpr (Nat.lt_succ_self limit))

/-- There is one first brace that leads deeper. -/
theorem first_brace_unique {u' v' : Text} (htext : u ++ '\x7b' :: v = u' ++ '\x7b' :: v')
    (hu : StaysWithin limit depth u) (hdepth : braceDepth depth u = limit)
    (hu' : StaysWithin limit depth u') (hdepth' : braceDepth depth u' = limit) : u = u' ∧ v = v' := by
  have shorter {u v u' v' : Text} (htext : u ++ '\x7b' :: v = u' ++ '\x7b' :: v') (hdepth : braceDepth depth u = limit)
      (hu' : StaysWithin limit depth u') : u'.length ≤ u.length := by
    refine Nat.le_of_not_lt fun hlt => ?_
    have hprefix : u ++ ['\x7b'] <+: u' := by
      have hfront : u ++ ['\x7b'] <+: u ++ '\x7b' :: v := ⟨v, by simp⟩
      refine List.prefix_of_prefix_length_le hfront (htext ▸ List.prefix_append _ _) ?_
      rw [List.length_append, List.length_singleton]
      exact hlt
    obtain ⟨w, rfl⟩ := hprefix
    rw [List.append_assoc] at hu'
    exact not_staysWithin hdepth hu'
  have hlength := Nat.le_antisymm (shorter htext.symm hdepth' hu) (shorter htext hdepth hu')
  obtain ⟨rfl, hv⟩ := List.append_inj htext hlength
  exact ⟨rfl, List.tail_eq_of_cons_eq hv⟩

theorem not_scopeReaches_nil : ¬ ScopeReaches limit grace depth [] := by
  rintro ⟨u, v, htext, -⟩
  simp at htext

theorem not_scopeReaches_zero : ¬ ScopeReaches limit 0 depth ts := by
  rintro ⟨u, v, -, hlength, -⟩
  simp at hlength

/-- A first piece that leads no deeper is one piece less to wait for. -/
theorem scopeReaches_cons_of_stays (ht : StaysWithin limit depth t) :
    ScopeReaches limit (grace + 1) depth (t :: ts) ↔ ScopeReaches limit grace (braceDepth depth t) ts := by
  constructor
  · rintro ⟨u, v, htext, hlength, hu, hdepth, hv⟩
    rw [List.flatten_cons] at htext
    rw [List.take_succ_cons, List.flatten_cons, List.length_append] at hlength
    rcases List.append_eq_append_iff.mp htext with ⟨w, rfl, hw⟩ | ⟨w, rfl, hw⟩
    · rw [staysWithin_append] at hu
      rw [List.length_append] at hlength
      exact ⟨w, v, hw, by omega, hu.2, by rw [← hdepth, braceDepth_append], hv⟩
    · -- the brace would be in the piece, unless the piece ends in front of it
      rcases List.cons_eq_append_iff.mp hw with ⟨rfl, hw⟩ | ⟨w, rfl, rfl⟩
      · rw [List.append_nil] at hlength ⊢
        exact ⟨[], v, hw.symm, by rw [List.length_nil]; omega, (fun p hp => by
          rw [List.prefix_nil.mp hp]; exact Nat.le_of_eq hdepth), hdepth, hv⟩
      · exact absurd ht (not_staysWithin hdepth)
  · rintro ⟨u, v, htext, hlength, hu, hdepth, hv⟩
    refine ⟨t ++ u, v, by rw [List.flatten_cons, htext, List.append_assoc], ?_, staysWithin_append.mpr ⟨ht, hu⟩, ?_, hv⟩
    · rw [List.take_succ_cons, List.flatten_cons, List.length_append, List.length_append]
      omega
    · rw [braceDepth_append, hdepth]

/-- A first piece that has the brace opens the scope, and what is behind the brace may not lead back. -/
theorem scopeReaches_cons_of_brace (hu : StaysWithin limit depth u) (hdepth : braceDepth depth u = limit) :
    ScopeReaches limit (grace + 1) depth ((u ++ '\x7b' :: v) :: ts) ↔
    StaysAbove (limit + 1) (limit + 1) (v ++ ts.flatten) := by
  have hflat : ((u ++ '\x7b' :: v) :: ts).flatten = u ++ '\x7b' :: (v ++ ts.flatten) := by simp
  constructor
  · rintro ⟨u', v', htext, -, hu', hdepth', hv'⟩
    obtain ⟨rfl, rfl⟩ := first_brace_unique (hflat.symm.trans htext) hu hdepth hu' hdepth'
    exact hv'
  · intro hv
    refine ⟨u, v ++ ts.flatten, hflat, ?_, hu, hdepth, hv⟩
    rw [List.take_succ_cons, List.flatten_cons, List.length_append, List.length_append, List.length_cons]
    omega

namespace BraceScope

variable {steps : List (Step α)} {tag : α}

/-! ## The scope in a tracker -/

theorem marks_run_nil (hsilent : ∀ step ∈ steps, step.isSilent = true) (depth : Nat) :
    (steps.foldl Step.apply (⟨depth, []⟩ : BraceScope α)).marks = [] := by
  induction steps generalizing depth with
  | nil => rfl
  | cons step steps ih =>
    obtain ⟨hstep, hsilent⟩ := List.forall_mem_cons.mp hsilent
    rw [List.foldl_cons, apply_of_isSilent hstep, List.filterMap_nil, ih hsilent]

/-- **An open scope stays open** as long as no brace leads back. -/
theorem isInside_run_open (hsilent : ∀ step ∈ steps, step.isSilent = true) (hdepth : limit < depth) :
    (steps.foldl Step.apply ⟨depth, [⟨limit, true, grace, tag⟩]⟩).isInside = true ↔
      StaysAbove (limit + 1) depth (steps.flatMap Step.text) := by
  induction steps generalizing depth with
  | nil =>
    refine ⟨fun _ p hp => ?_, fun _ => rfl⟩
    rw [List.prefix_nil.mp hp]
    exact hdepth
  | cons step steps ih =>
    obtain ⟨hstep, hsilent⟩ := List.forall_mem_cons.mp hsilent
    have hnext : (⟨limit, true, grace, tag⟩ : Mark α).next (braceDepth depth step.text) step =
        if step.text = ['\x7d'] ∧ braceDepth depth step.text ≤ limit then none else some ⟨limit, true, grace, tag⟩ :=
      Mark.next_of_isOpen rfl
    rw [List.foldl_cons, List.flatMap_cons, staysAbove_append, apply_of_isSilent hstep]
    simp only [List.filterMap_cons, List.filterMap_nil, hnext]
    split_ifs with hback
    · have hgone := marks_run_nil hsilent (braceDepth depth step.text)
      rw [isInside, hgone]
      refine ⟨fun h => absurd h Bool.false_ne_true, fun h => ?_⟩
      have := h.1 step.text (List.prefix_refl _)
      omega
    · have hstays : limit < braceDepth depth step.text := by
        cases step with
        | announce tag => exact hdepth
        | endPiece => exact hdepth
        | char c =>
          rw [Step.text] at hback ⊢
          rw [show braceDepth depth [c] = if c = '\x7b' then depth + 1 else if c = '\x7d' then depth - 1 else depth
            from rfl] at hback ⊢
          split_ifs at hback ⊢ with hopener hcloser
          · omega
          · have : ¬ depth - 1 ≤ limit := fun hle => hback ⟨by rw [hcloser], hle⟩
            omega
          · exact hdepth
      rw [ih hsilent hstays]
      refine ⟨fun h => ⟨fun p hp => ?_, h⟩, fun h => h.2⟩
      rcases eq_of_prefix_text hp with rfl | rfl
      · exact hdepth
      · exact hstays

/-- A scope that waits is left as it is by characters that lead no deeper. -/
theorem foldl_feedChar_waiting (ht : StaysWithin limit depth t) :
    t.foldl feedChar (⟨depth, [⟨limit, false, grace, tag⟩]⟩ : BraceScope α) =
      ⟨braceDepth depth t, [⟨limit, false, grace, tag⟩]⟩ := by
  induction t generalizing depth with
  | nil => rfl
  | cons c t ih =>
    obtain ⟨hc, ht⟩ := staysWithin_append.mp (show StaysWithin limit depth ([c] ++ t) from ht)
    have hchar : (⟨depth, [⟨limit, false, grace, tag⟩]⟩ : BraceScope α).feedChar c =
        ⟨braceDepth depth [c], [⟨limit, false, grace, tag⟩]⟩ := by
      have hsilent := apply_of_isSilent (show (Step.char c).isSilent = true from rfl)
        (⟨depth, [⟨limit, false, grace, tag⟩]⟩ : BraceScope α)
      have hle : braceDepth depth [c] ≤ (⟨limit, false, grace, tag⟩ : Mark α).depth := hc [c] (List.prefix_refl _)
      rw [Step.text] at hsilent
      simp only [List.filterMap_cons, List.filterMap_nil, Mark.next_char rfl hle] at hsilent
      exact hsilent
    rw [List.foldl_cons, hchar, ih ht, ← braceDepth_append, List.singleton_append]

theorem foldl_feed (ts : List Text) (s : BraceScope α) :
    ts.foldl feed s = (ts.flatMap fun t => (Call.feed t : Call α).steps).foldl Step.apply s := by
  rw [List.foldl_flatMap]
  simp only [foldl_steps]
  rfl

/-- **Whether a scope is open** behind pieces of text. -/
theorem isInside_feeds (hdepth : depth ≤ limit) (hgrace : 0 < grace) :
    (ts.foldl feed ⟨depth, [⟨limit, false, grace, tag⟩]⟩).isInside = true ↔ ScopeReaches limit grace depth ts := by
  induction ts generalizing depth grace with
  | nil => exact ⟨fun h => absurd h Bool.false_ne_true, fun h => absurd h not_scopeReaches_nil⟩
  | cons t ts ih =>
    obtain ⟨grace, rfl⟩ := Nat.exists_eq_succ_of_ne_zero (Nat.ne_of_gt hgrace)
    rcases staysWithin_or_exists hdepth t with ht | ⟨u, v, rfl, hu, hlimit⟩
    · rw [Nat.succ_eq_add_one, scopeReaches_cons_of_stays ht, List.foldl_cons, feed, foldl_feedChar_waiting ht]
      have hend : (⟨braceDepth depth t, [⟨limit, false, grace + 1, tag⟩]⟩ : BraceScope α).endPiece =
          ⟨braceDepth depth t, if 0 < grace then [⟨limit, false, grace, tag⟩] else []⟩ := by
        by_cases hpos : 0 < grace <;> simp [endPiece, hpos]
      rw [hend]
      split_ifs with hpos
      · exact ih (ht t (List.prefix_refl t)) hpos
      · obtain rfl : grace = 0 := by omega
        have hgone := marks_run_nil (flatMap_steps (α := α) ts).1 (braceDepth depth t)
        rw [← foldl_feed] at hgone
        rw [isInside, hgone]
        exact ⟨fun h => absurd h Bool.false_ne_true, fun h => absurd h not_scopeReaches_zero⟩
    · rw [Nat.succ_eq_add_one, scopeReaches_cons_of_brace hu hlimit]
      -- behind the brace the scope is open
      have hopen : (u ++ ['\x7b']).foldl feedChar (⟨depth, [⟨limit, false, grace + 1, tag⟩]⟩ : BraceScope α) =
          ⟨limit + 1, [⟨limit, true, grace + 1, tag⟩]⟩ := by
        rw [List.foldl_append, foldl_feedChar_waiting hu, hlimit]
        simp [feedChar]
      have hsteps : ((u ++ '\x7b' :: v) :: ts).foldl feed (⟨depth, [⟨limit, false, grace + 1, tag⟩]⟩ : BraceScope α) =
          ((v :: ts).flatMap fun t => (Call.feed t : Call α).steps).foldl Step.apply
            ⟨limit + 1, [⟨limit, true, grace + 1, tag⟩]⟩ := by
        rw [← foldl_feed, List.foldl_cons, List.foldl_cons, ← hopen, feed, feed, ← List.foldl_append]
        simp
      obtain ⟨hsilent, htext, _⟩ := flatMap_steps (α := α) (v :: ts)
      rw [hsteps, isInside_run_open hsilent (Nat.lt_succ_self limit), htext, List.flatten_cons]

/-- Each scope is on its own. -/
theorem marks_feeds_append (ts : List Text) (depth : Nat) (marks marks' : List (Mark α)) :
    (ts.foldl feed ⟨depth, marks ++ marks'⟩).marks =
      (ts.foldl feed ⟨depth, marks⟩).marks ++ (ts.foldl feed ⟨depth, marks'⟩).marks := by
  rw [foldl_feed, foldl_feed, foldl_feed]
  exact marks_run_append (flatMap_steps ts).1 depth marks marks'

end BraceScope

end Checkup
