import Mathlib.Data.List.Basic
import Mathlib.Data.List.Flatten
import Checkup.Proofs.Await.Run

/-!
# Pairs of awaits that could start together

`independentPairs` goes through a run from left to right and takes each pair of neighbours that it can. No other choice
of disjoint pairs is larger (`Pairing.length_le`): a pair that starts at one of the two places that the scan has used up
can be given up for the pair that the scan has taken.

* `Pairing`: places of a run where disjoint pairs start, the second of which does not use what the first binds.
* `pairPlaces`: the places where the pairs of the scan start (`independentPairs_eq`); they are such places
  (`pairPlaces_spec`).
* `asyncParallel_pairs`: what the rule reports.
-/

namespace Checkup

variable {run rest : List AwaitStatement} {ps : List Nat} {i : Nat}

/-- The neighbours in a run that start at a place. -/
def pairAt (run : List AwaitStatement) (i : Nat) : Option (AwaitStatement × AwaitStatement) := do
  return (← run[i]?, ← run[i + 1]?)

/-- Whether there are neighbours at a place, the second of which does not use what the first binds. -/
def IndependentAt (run : List AwaitStatement) (i : Nat) : Prop :=
  ∃ a b, run[i]? = some a ∧ run[i + 1]? = some b ∧ ¬ b.Uses a

/-- Places of a run, in any order, where such pairs start that have no statement in common. -/
structure Pairing (run : List AwaitStatement) (ps : List Nat) : Prop where
  independent : ∀ i ∈ ps, IndependentAt run i
  disjoint : ps.Pairwise fun i j => i + 2 ≤ j ∨ j + 2 ≤ i

/-! ## The pairs of the scan -/

/-- The places where the pairs start that the scan takes. -/
def pairPlaces : List AwaitStatement → List Nat
  | [] => []
  | [_] => []
  | a :: b :: rest =>
    if b.dependsOn a.names then (pairPlaces (b :: rest)).map (· + 1) else 0 :: (pairPlaces rest).map (· + 2)

theorem independentPairs_eq (run : List AwaitStatement) :
    independentPairs run = (pairPlaces run).filterMap (pairAt run) := by
  induction run using independentPairs.induct with
  | case1 | case2 => rfl
  | case3 a b rest hdep ih =>
    rw [independentPairs, pairPlaces, if_pos hdep, if_pos hdep, ih, List.filterMap_map]
    rfl
  | case4 a b rest hdep ih =>
    rw [independentPairs, pairPlaces, if_neg hdep, if_neg hdep, ih, List.filterMap_cons, List.filterMap_map]
    rfl

theorem independentAt_append (run rest : List AwaitStatement) (i : Nat) :
    IndependentAt (run ++ rest) (i + run.length) ↔ IndependentAt rest i := by
  have hplace (k : Nat) : (run ++ rest)[k + run.length]? = rest[k]? := by
    rw [List.getElem?_append_right (Nat.le_add_left _ _), Nat.add_sub_cancel]
  rw [IndependentAt, IndependentAt, hplace, Nat.add_right_comm, hplace]

theorem independentAt_zero {a b : AwaitStatement} : IndependentAt (a :: b :: rest) 0 ↔ ¬ b.Uses a := by
  simp [IndependentAt]

/-- The scan takes pairs from left to right that have no statement in common. -/
theorem pairPlaces_spec (h : BindsIdentifiers run) :
    (∀ i ∈ pairPlaces run, IndependentAt run i) ∧ (pairPlaces run).Pairwise fun i j => i + 2 ≤ j := by
  induction run using independentPairs.induct with
  | case1 | case2 => exact ⟨List.forall_mem_nil _, .nil⟩
  | case3 a b rest hdep ih =>
    obtain ⟨hind, hapart⟩ := ih h.tail
    rw [pairPlaces, if_pos hdep]
    refine ⟨List.forall_mem_map.mpr fun i hi => (independentAt_append [a] _ i).mpr (hind i hi), ?_⟩
    exact List.pairwise_map.mpr (hapart.imp fun hij => by omega)
  | case4 a b rest hdep ih =>
    obtain ⟨hind, hapart⟩ := ih h.tail.tail
    rw [pairPlaces, if_neg hdep]
    refine ⟨List.forall_mem_cons.mpr ⟨?_, List.forall_mem_map.mpr fun i hi => ?_⟩, List.pairwise_cons.mpr ⟨?_, ?_⟩⟩
    · rwa [independentAt_zero, ← AwaitStatement.dependsOn_iff (h a List.mem_cons_self)]
    · exact (independentAt_append [a, b] rest i).mpr (hind i hi)
    · exact List.forall_mem_map.mpr fun i _ => by omega
    · exact List.pairwise_map.mpr (hapart.imp fun hij => by omega)

/-! ## No choice of pairs is larger -/

/-- Places behind the first statements are places of the rest. -/
theorem Pairing.shift (run : List AwaitStatement) (h : Pairing (run ++ rest) ps) (hps : ∀ i ∈ ps, run.length ≤ i) :
    Pairing rest (ps.map (· - run.length)) where
  independent := List.forall_mem_map.mpr fun i hi => by
    rw [← independentAt_append run, Nat.sub_add_cancel (hps i hi)]
    exact h.independent i hi
  disjoint := List.pairwise_map.mpr <| h.disjoint.imp_of_mem fun hi hj hij => by
    have := hps _ hi
    have := hps _ hj
    omega

theorem Pairing.filter (h : Pairing run ps) (p : Nat → Bool) : Pairing run (ps.filter p) :=
  ⟨fun i hi => h.independent i (List.mem_filter.mp hi).1, h.disjoint.filter p⟩

/-- Of the pairs that meet the first two statements, a choice of disjoint ones holds one at most. -/
theorem Pairing.length_filter_le (h : Pairing run ps) : (ps.filter (· < 2)).length ≤ 1 := by
  have hlt : ∀ i ∈ ps.filter (· < 2), i < 2 := fun i hi => of_decide_eq_true (List.mem_filter.mp hi).2
  have hapart := h.disjoint.filter (fun i => decide (i < 2))
  cases hps : ps.filter (· < 2) with
  | nil => exact Nat.zero_le 1
  | cons i rest =>
    cases rest with
    | nil => exact Nat.le_refl 1
    | cons j rest =>
      rw [hps] at hlt hapart
      have hij := (List.pairwise_cons.mp hapart).1 j List.mem_cons_self
      have hi := hlt i List.mem_cons_self
      have hj := hlt j (List.mem_cons_of_mem i List.mem_cons_self)
      omega

/-- **The scan takes as many pairs as there can be.** -/
theorem Pairing.length_le (hrun : BindsIdentifiers run) (h : Pairing run ps) : ps.length ≤ (pairPlaces run).length := by
  have hnone {run : List AwaitStatement} (hshort : run.length < 2) {ps : List Nat} (h : Pairing run ps) : ps = [] := by
    refine List.eq_nil_iff_forall_not_mem.mpr fun i hi => ?_
    obtain ⟨a, b, _, hb, _⟩ := h.independent i hi
    have := (List.getElem?_eq_some_iff.mp hb).1
    omega
  induction run using independentPairs.induct generalizing ps with
  | case1 => exact Nat.le_of_eq (congrArg List.length (hnone (by simp) h))
  | case2 a => exact Nat.le_of_eq (congrArg List.length (hnone (by simp) h))
  | case3 a b rest hdep ih =>
    -- no pair starts at the first statement
    have hpos : ∀ i ∈ ps, 1 ≤ i := fun i hi => Nat.one_le_iff_ne_zero.mpr fun hzero => by
      have hind := h.independent i hi
      rw [hzero, independentAt_zero, ← AwaitStatement.dependsOn_iff (hrun a List.mem_cons_self)] at hind
      exact hind hdep
    have hle := ih hrun.tail (h.shift [a] hpos)
    rwa [pairPlaces, if_pos hdep, List.length_map, ← List.length_map (· - 1)]
  | case4 a b rest hdep ih =>
    -- one pair at most meets the first two statements, and the others are pairs of the rest
    have hbehind : ∀ i ∈ ps.filter (fun i => !decide (i < 2)), 2 ≤ i := fun i hi => by
      simpa only [Bool.not_eq_true', decide_eq_false_iff_not, Nat.not_lt] using (List.mem_filter.mp hi).2
    have hle := ih hrun.tail.tail ((h.filter fun i => !decide (i < 2)).shift [a, b] hbehind)
    have hfirst := h.length_filter_le
    have hsplit := List.length_eq_length_filter_add (l := ps) fun i => decide (i < 2)
    rw [List.length_map] at hle
    rw [pairPlaces, if_neg hdep, List.length_cons, List.length_map]
    omega

/-! ## What the rule reports -/

theorem firsts_sublist (run : List AwaitStatement) : ((independentPairs run).map Prod.fst).Sublist run := by
  induction run using independentPairs.induct with
  | case1 | case2 => exact List.nil_sublist _
  | case3 a b rest hdep ih =>
    rw [independentPairs, if_pos hdep]
    exact ih.cons a
  | case4 a b rest hdep ih =>
    rw [independentPairs, if_neg hdep]
    exact (ih.cons b).cons_cons a

/-- **Pairs of awaits.** What the rule finds in a file comes from places in its runs: in each run from places, in order,
where disjoint pairs of neighbours start, the second of which does not use what the first binds, and from as many as
there can be. There is one finding for each pair, in the order of the file, at the first statement of the pair. -/
theorem asyncParallel_pairs (path : String) (content : Text) :
    ∃ (places : List AwaitStatement → List Nat) (findings : List Finding),
      let pairs := (awaitRuns content).flatMap fun run => (places run).filterMap (pairAt run)
      asyncParallel.detect path content = .ok findings ∧
      (∀ run ∈ awaitRuns content, Pairing run (places run) ∧ (places run).Pairwise (· < ·) ∧
        ∀ ps, Pairing run ps → ps.length ≤ (places run).length) ∧
      (findings.map fun f => (f.location, f.message)) = (pairs.map fun (a, b) => (⟨path, a.line, a.column⟩,
        s!"`{a.display}` and `{b.display}` are awaited sequentially but do not depend on each other")) ∧
      findings.Pairwise fun f f' => f.location.line < f'.location.line := by
  have hpairs : (fun run => (pairPlaces run).filterMap (pairAt run)) = independentPairs :=
    funext fun run => (independentPairs_eq run).symm
  refine ⟨pairPlaces, _, detect_of_awaitRuns (r := asyncParallel) rfl rfl path content, fun run hr => ?_, ?_, ?_⟩
  · have hrun := bindsIdentifiers_of_mem_awaitRuns hr
    obtain ⟨hind, hapart⟩ := pairPlaces_spec hrun
    exact ⟨⟨hind, hapart.imp Or.inl⟩, hapart.imp fun hij => by omega, fun ps h => h.length_le hrun⟩
  · rw [hpairs, List.map_map, List.map_flatMap, List.map_flatMap]
    simp only [List.map_map]
    rfl
  · have hfirsts : ((awaitRuns content).flatMap fun run => (independentPairs run).map Prod.fst).Pairwise
        fun a b => a.line < b.line := by
      refine (awaitRuns_increasing content).sublist ?_
      rw [← List.flatMap_id]
      exact List.Sublist.flatMap_right _ fun run _ => firsts_sublist run
    rw [← List.map_flatMap, List.pairwise_map] at hfirsts ⊢
    rw [List.pairwise_map]
    exact hfirsts

end Checkup
