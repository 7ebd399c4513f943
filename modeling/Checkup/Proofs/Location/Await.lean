import Checkup.Proofs.Location.Basic
import Checkup.Rule.Await

/-!
# Spots about awaiting

A statement that awaits has its place at the indent of its line, which is not blank (`AwaitStatement.ofLine_on`), and
the statements of a run come from lines of the file (`mem_awaitRuns`). Loops have the place of their head.
-/

namespace Checkup

open Pattern

variable {content line : Text} {n : Nat} {s : AwaitStatement} {message help : String} {ls : List (Nat × Text)}

/-! ## Statements -/

/-- A statement comes from a match in its line. -/
theorem AwaitStatement.exists_match (h : ofLine n line = some s) :
    ∃ m target, awaitStatement.find line = some m ∧
      s = ⟨n, Text.indent line + 1, boundNames target, ((m.group? 3).map Capture.text).getD []⟩ := by
  simp only [ofLine, Option.bind_eq_bind, Option.bind_eq_some_iff] at h
  obtain ⟨m, hm, target, _, h⟩ := h
  split at h
  · cases h
  · exact ⟨m, target.text, hm, (Option.some.inj h).symm⟩

/-- The place of a statement is on its line. -/
theorem AwaitStatement.ofLine_on (h : ofLine n line = some s) (hl : (n, line) ∈ ls) :
    (⟨s.line, s.column, message, help⟩ : Spot).On ls := by
  obtain ⟨m, target, hm, rfl⟩ := exists_match h
  obtain ⟨pre, w, post, g, hof⟩ := find_of hm
  obtain ⟨x, hx, hb⟩ := inks_takes (by decide) hof.takes
  obtain ⟨lead, x, rest, hline, hlead, _⟩ := Text.exists_ink (t := line) ⟨x, by simp [hof.text_eq, hx], hb⟩
  refine Spot.on_inLine hl ?_
  have := Text.byteSize_pos (List.cons_ne_nil x rest)
  rw [hlead, hline, Text.byteSize_append]
  omega

theorem mem_awaitRunsFrom {run run' : List AwaitStatement} (hr : run' ∈ awaitRunsFrom run ls) (hs : s ∈ run') :
    s ∈ run ∨ ∃ x ∈ ls, AwaitStatement.ofLine x.1 x.2 = some s := by
  induction ls generalizing run with
  | nil =>
    rw [awaitRunsFrom] at hr
    split at hr
    · cases hr
    · rw [List.mem_singleton.mp hr] at hs
      exact Or.inl (List.mem_reverse.mp hs)
  | cons x ls ih =>
    obtain ⟨n, line⟩ := x
    have later {run : List AwaitStatement} (hr : run' ∈ awaitRunsFrom run ls) :
        s ∈ run ∨ ∃ x ∈ (n, line) :: ls, AwaitStatement.ofLine x.1 x.2 = some s :=
      (ih hr).imp_right fun ⟨x, hx, hs⟩ => ⟨x, List.mem_cons_of_mem _ hx, hs⟩
    rw [awaitRunsFrom] at hr
    split at hr
    · -- the run goes on with the statement of the line
      rename_i s' hs'
      rcases later hr with h | h
      · rcases List.mem_cons.mp h with rfl | h
        · exact Or.inr ⟨_, List.mem_cons_self, hs'⟩
        · exact Or.inl h
      · exact Or.inr h
    · split at hr
      · exact later hr
      · rcases List.mem_cons.mp hr with rfl | hr
        · exact Or.inl (List.mem_reverse.mp hs)
        · -- behind the end of a run the next one starts empty
          exact (later hr).imp_left fun h => absurd h List.not_mem_nil

/-- The statements of the runs come from lines of the file. -/
theorem mem_awaitRuns {run : List AwaitStatement} (hr : run ∈ awaitRuns content) (hs : s ∈ run) :
    ∃ x ∈ numberedLines content, AwaitStatement.ofLine x.1 x.2 = some s :=
  (mem_awaitRunsFrom hr hs).resolve_left List.not_mem_nil

/-- The place of a statement of a run is on its line. -/
theorem awaitRuns_on {run : List AwaitStatement} (hr : run ∈ awaitRuns content) (hs : s ∈ run) :
    (⟨s.line, s.column, message, help⟩ : Spot).On (numberedLines content) := by
  obtain ⟨x, hx, hof⟩ := mem_awaitRuns hr hs
  exact AwaitStatement.ofLine_on hof hx

theorem mem_of_mem_independentPairs {run : List AwaitStatement} {a b : AwaitStatement}
    (h : (a, b) ∈ independentPairs run) : a ∈ run := by
  induction run using independentPairs.induct with
  | case1 | case2 => cases h
  | case3 c d rest hd ih =>
    rw [independentPairs, if_pos hd] at h
    exact List.mem_cons_of_mem _ (ih h)
  | case4 c d rest hd ih =>
    rw [independentPairs, if_neg hd] at h
    rcases List.mem_cons.mp h with h | h
    · cases h; exact List.mem_cons_self
    · exact List.mem_cons_of_mem _ (List.mem_cons_of_mem _ (ih h))

theorem mem_of_mem_independentStretches {run st st' : List AwaitStatement} (h : st' ∈ independentStretches st run)
    (hs : s ∈ st') : s ∈ st ∨ s ∈ run := by
  induction run generalizing st with
  | nil =>
    rw [List.mem_singleton.mp h] at hs
    exact Or.inl (List.mem_reverse.mp hs)
  | cons a run ih =>
    rw [independentStretches] at h
    split at h
    · rcases List.mem_cons.mp h with rfl | h
      · exact Or.inl (List.mem_reverse.mp hs)
      · rcases ih h with h | h
        · rw [List.mem_singleton.mp h]; exact Or.inr List.mem_cons_self
        · exact Or.inr (List.mem_cons_of_mem _ h)
    · rcases ih h with h | h
      · rcases List.mem_cons.mp h with rfl | h
        · exact Or.inr List.mem_cons_self
        · exact Or.inl h
      · exact Or.inr (List.mem_cons_of_mem _ h)

theorem asyncParallel_located : asyncParallel.Located := by
  refine ⟨_, rfl, fun path content s hs => ?_⟩
  simp only [List.mem_flatMap, List.mem_map, Prod.exists] at hs
  obtain ⟨run, hr, a, b, hab, rfl⟩ := hs
  exact awaitRuns_on hr (mem_of_mem_independentPairs hab)

theorem asyncWaterfall_located : asyncWaterfall.Located := by
  refine ⟨_, rfl, fun path content s hs => ?_⟩
  simp only [List.mem_flatMap, List.mem_filterMap] at hs
  obtain ⟨run, hr, stretch, hst, hs⟩ := hs
  unfold waterfallSpot at hs
  split at hs
  · cases hs
    have := mem_of_mem_independentStretches hst List.mem_cons_self
    exact awaitRuns_on hr (this.resolve_left List.not_mem_nil)
  · cases hs

theorem deferSpots_on {s : Spot} (hs : s ∈ deferSpots ls) : s.On ls := by
  induction ls with
  | nil => cases hs
  | cons x ls ih =>
    obtain ⟨n, line⟩ := x
    have later (hs : s ∈ deferSpots ls) : s.On ((n, line) :: ls) :=
      (ih hs).mono fun x hx => List.mem_cons_of_mem _ hx
    rw [deferSpots] at hs
    split at hs
    · exact later hs
    · rename_i a ha
      dsimp only at hs
      split at hs
      · rcases List.mem_cons.mp hs with rfl | hs
        · exact AwaitStatement.ofLine_on ha List.mem_cons_self
        · exact later hs
      · exact later hs

theorem deferAwait_located : deferAwait.Located :=
  ⟨_, rfl, fun _ _ _ hs => deferSpots_on hs⟩

/-! ## Loops -/

/-- A loop starts with its head. -/
theorem LoopBody.header_of_ofHeader {m : Match} {b : LoopBody} (h : LoopBody.ofHeader content m = some b) :
    b.header = m.start := by
  unfold LoopBody.ofHeader at h
  split at h
  · cases h
  · simp only [Option.bind_eq_bind, Option.bind_eq_some_iff] at h
    obtain ⟨close, _, h⟩ := h
    split at h
    · cases h
    · split at h
      · obtain ⟨stop, _, rfl⟩ := Option.map_eq_some_iff.mp h
        rfl
      · split at h
        · cases h
        · cases h; rfl

theorem mem_loopBodies {b : LoopBody} (hb : b ∈ loopBodies content) :
    ∃ m ∈ loopHeader.findAll content, b.header = m.start := by
  obtain ⟨m, hm, hb⟩ := List.mem_filterMap.mp hb
  exact ⟨m, hm, LoopBody.header_of_ofHeader hb⟩

theorem awaitInLoop_located : awaitInLoop.Located := by
  refine ⟨_, rfl, fun path content s hs => ?_⟩
  simp only [Spot.mem_sort, List.mem_append, List.mem_map, List.mem_filter] at hs
  rcases hs with ⟨b, ⟨hb, _⟩, rfl⟩ | ⟨m, hm, rfl⟩
  · obtain ⟨m, hm, hstart⟩ := mem_loopBodies hb
    obtain ⟨pre, w, post, g, hof⟩ := findAll_of hm
    rw [hstart]
    exact hof.on_start (by decide)
  · obtain ⟨pre, w, post, g, hof⟩ := findAll_of hm
    exact hof.on_start (by decide)

end Checkup
