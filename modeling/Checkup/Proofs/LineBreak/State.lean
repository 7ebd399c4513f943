import Checkup.Proofs.LineBreak.Import
import Checkup.Proofs.Location.Component

/-!
# State, effects and carriage returns

The calls that register effects are at the same places, with bodies that get their own carriage returns
(`effectCalls_crlf`, `EffectCall.Twin.body?_crlf`). Statements and arguments are told apart by characters around which
blanks do not matter (`statements_crlf`, `hasDependencies_crlf`). The patterns that are made of the names of a state
variable are solid, as names hold no part of a line break (`hold_capturedUpdate`).
-/

namespace Checkup

open Text (crlf crlf_nil crlf_cons crlf_feed crlf_append Moves MovesAt)
open Pattern

variable {content : Text}

/-! ## Effects -/

/-- Whether two calls are at the same places of a text. -/
structure EffectCall.Twin (t : Text) (e e' : EffectCall) : Prop where
  start : Moves t e.start e'.start
  argsOpen : MovesAt t '(' e.argsOpen e'.argsOpen
  argsClose : Moves t e.argsClose e'.argsClose

theorem effectCalls_crlf (content : Text) :
    List.Forall₂ (EffectCall.Twin content) (effectCalls content) (effectCalls (crlf content)) := by
  refine List.rel_filterMap (fun m m' hm => ?_) (findAll_crlf (p := effectStart) [] (by decide) content)
  have hlast := hm.last (c := '(') (fun x hx => eq_of_beq hx) (by decide) (by decide)
  refine rel_map (Text.blockEnd_crlf hlast.moves) fun close close' hclose => ?_
  obtain ⟨closer, _, _, hclose⟩ := hclose
  exact ⟨hm.start, hlast, hclose.moves⟩

namespace EffectCall

variable {e e' : EffectCall}

/-- The body of a call gets its own carriage returns. -/
theorem Twin.body?_crlf (h : Twin content e e') :
    Option.Rel (fun body body' => body' = crlf body) (e.body? content) (e'.body? (crlf content)) := by
  refine rel_bind (Text.findAfter_crlf (by decide) h.argsOpen.moves) fun opening opening' hopening => ?_
  have hle := h.argsClose.le_iff hopening.moves
  by_cases hc : e.argsClose ≤ opening
  · rw [if_pos hc, if_pos (hle.mp hc)]
    exact .none
  · rw [if_neg hc, if_neg fun hc' => hc (hle.mpr hc')]
    refine rel_bind (Text.blockEnd_crlf hopening.moves) fun close close' hclose => .some ?_
    obtain ⟨closer, _, _, hclose⟩ := hclose
    exact (hopening.succ (by decide) (by decide)).slice_eq (hclose.moves.min h.argsClose)

theorem hasCommaAt_crlf (depth : Int) (t : Text) : hasCommaAt depth (crlf t) = hasCommaAt depth t := by
  induction t generalizing depth with
  | nil => rfl
  | cons c t ih =>
    by_cases hc : c = '\n'
    · subst hc
      simp [hasCommaAt, ih]
    · rw [crlf_cons hc]
      simp only [hasCommaAt, ih]

theorem Twin.hasDependencies_crlf (h : Twin content e e') :
    e'.hasDependencies (crlf content) = e.hasDependencies content := by
  rw [hasDependencies, (h.argsOpen.succ (by decide) (by decide)).slice_eq h.argsClose, hasCommaAt_crlf]
  rfl

end EffectCall

/-- A carriage return at the end of a statement is a blank there. -/
theorem splitFrom_crlf {sep : Char → Bool} (hr : sep '\r' = false) (hn : sep '\n' = true) (piece t : Text) :
    (Text.splitFrom sep piece (crlf t)).map Text.trim = (Text.splitFrom sep piece t).map Text.trim := by
  induction t generalizing piece with
  | nil => rfl
  | cons c t ih =>
    by_cases hc : c = '\n'
    · subst hc
      rw [crlf_feed, Text.splitFrom, hr, if_neg Bool.false_ne_true, Text.splitFrom, if_pos hn,
        Text.splitFrom, if_pos hn, List.map_cons, List.map_cons, ih, List.reverse_cons, Text.trim_concat (by decide)]
    · rw [crlf_cons hc, Text.splitFrom, Text.splitFrom]
      split
      · rw [List.map_cons, List.map_cons, ih]
      · exact ih (c :: piece)

theorem statements_crlf (body : Text) : statements (crlf body) = statements body := by
  rw [statements, Text.split, splitFrom_crlf (by decide) (by decide), statements, Text.split]

theorem syncedSetters?_crlf (setters : List Text) (body : Text) :
    syncedSetters? setters (crlf body) = syncedSetters? setters body := by
  rw [syncedSetters?, statements_crlf, syncedSetters?]

theorem effectWithoutDependencies_ignoresReturns : effectWithoutDependencies.IgnoresReturns := by
  refine Rule.ignoresReturns_of rfl (by decide) fun path content hc => ?_
  refine map_eq_of_forall₂ (List.rel_filter (fun e e' he => ?_) (effectCalls_crlf content)) fun e e' he => ?_
  · show (!e.hasDependencies content) = true ↔ (!e'.hasDependencies (crlf content)) = true
    rw [he.hasDependencies_crlf]
  · exact Spot.atOffset_crlf he.start _ _

theorem usesDataLibrary_crlf (content : Text) : usesDataLibrary (crlf content) = usesDataLibrary content := by
  refine any_eq_of_forall₂ (imports_crlf content) fun r r' hr => ?_
  rw [hr.1]

theorem fetchInEffect_ignoresReturns : fetchInEffect.IgnoresReturns := by
  refine Rule.ignoresReturns_of rfl (by decide) fun path content hc => ?_
  simp only [usesDataLibrary_crlf]
  split
  · rfl
  · refine filterMap_eq_of_forall₂ (effectCalls_crlf content) fun e e' he => ?_
    refine bind_eq_of_rel he.body?_crlf fun body body' hbody => ?_
    rw [hbody, occurs_crlf (by decide), Spot.atOffset_crlf he.start]

/-! ## State variables -/

theorem statePairs_crlf (content : Text) : statePairs (crlf content) = statePairs content := by
  refine filterMap_eq_of_forall₂ (findAll_crlf (p := stateDeclaration) [] (by decide) content)
    fun m m' hm => ?_
  refine bind_eq_of_rel (hm.group_same (n := 1) (by simp) (by decide)) fun c c' hc => ?_
  refine bind_eq_of_rel (hm.group_same (n := 2) (by simp) (by decide)) fun d d' hd => ?_
  rw [hc.1, hd.1]

theorem derivedState_ignoresReturns : derivedState.IgnoresReturns := by
  refine Rule.ignoresReturns_of rfl (by decide) fun path content hc => ?_
  simp only [statePairs_crlf]
  split
  · rfl
  · refine filterMap_eq_of_forall₂ (effectCalls_crlf content) fun e e' he => ?_
    refine bind_eq_of_rel he.body?_crlf fun body body' hbody => ?_
    simp only [hbody, syncedSetters?_crlf, Spot.atOffset_crlf he.start]

theorem hold_literal {w : Text} (hne : w ≠ []) (hw : Text.Breakless w) (free : List Nat) (d : Hold) :
    (literal w).hold free d = some .solid := by
  have hone {c : Char} {w : Text} (hw : Text.Breakless (c :: w)) (d : Hold) :
      (one (· == c)).hold free d = some .solid := by
    have hr : ('\r' == c) = false := beq_false_of_ne hw.head_ne.2.symm
    have hn : ('\n' == c) = false := beq_false_of_ne hw.head_ne.1.symm
    simp [hold, hr, hn]
  induction w using literal.induct generalizing d with
  | case1 => exact absurd rfl hne
  | case2 c => exact hone hw d
  | case3 c w hw' ih =>
    rw [literal]
    · rw [hold, ih hw' hw.tail, Option.bind_some]
      exact hone hw _
    · exact hw'

/-- A pattern that is made of two such names is solid. -/
theorem hold_capturedUpdate {value setter : Text} (hv : value ≠ []) (hv' : Text.Breakless value) (hs : setter ≠ [])
    (hs' : Text.Breakless setter) : (capturedUpdate value setter).hold [] .plain = some .solid := by
  -- it does not matter which names they are
  have hname {w : Text} (hne : w ≠ []) (hw : Text.Breakless w) : (literal w).hold [] = (literal ['x']).hold [] :=
    funext fun d => (hold_literal hne hw [] d).trans (hold_literal (by decide) (by decide) [] d).symm
  simp only [capturedUpdate, seqAll, anyOf, hold, hname hv hv', hname hs hs']
  decide

theorem functionalSetState_ignoresReturns : functionalSetState.IgnoresReturns := by
  refine Rule.ignoresReturns_of rfl (by decide) fun path content hc => congrArg Spot.sort ?_
  rw [statePairs_crlf]
  refine List.flatMap_congr fun x hx => ?_
  obtain ⟨value, setter⟩ := x
  obtain ⟨⟨hv, hv'⟩, hs, hs'⟩ := statePairs_names hx
  exact map_eq_of_forall₂ (findAll_crlf [] (hold_capturedUpdate hv hv' hs hs') content) fun m m' hm =>
    Spot.atOffset_crlf hm.start _ _

theorem lazyStateInit_ignoresReturns : lazyStateInit.IgnoresReturns := by
  refine Rule.ignoresReturns_of rfl (by decide) fun path content hc => ?_
  refine filterMap_eq_of_forall₂ (findAll_crlf (p := stateInitCall) [] (by decide) content) fun m m' hm => ?_
  refine bind_eq_of_rel (hm.group_same (n := 2) (by simp) (by decide)) fun c c' hc => ?_
  simp only [hc.1, Spot.atOffset_crlf hm.start]

theorem inlineContextValue_ignoresReturns : inlineContextValue.IgnoresReturns := by
  refine Rule.ignoresReturns_of rfl (by decide) fun path content hc => ?_
  refine filterMap_eq_of_forall₂ (findAll_crlf (p := contextValue) [] (by decide) content) fun m m' hm => ?_
  refine bind_eq_of_rel (hm.group_same (n := 1) (by simp) (by decide)) fun c c' hc => ?_
  rw [hc.1, Spot.atOffset_crlf hm.start]

theorem indexKey_ignoresReturns : indexKey.IgnoresReturns := by
  refine Rule.ignoresReturns_of rfl (by decide) fun path content hc => ?_
  exact map_eq_of_forall₂ (findAll_crlf (p := indexKeyPattern) [] (by decide) content) fun m m' hm =>
    Spot.atOffset_crlf hm.start _ _

end Checkup
