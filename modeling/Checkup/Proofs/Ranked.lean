import Mathlib.Data.List.Basic

/-!
# Sorting by rank

A stable sort by rank is known from what it keeps: of each rank the same members in the same order
(`filter_sortByRank`). A list in the order of the ranks is determined by that (`Ranked.eq_of_filter`), so sorting is the
same as writing down the members of each rank, rank after rank (`flatMap_filter_rank`), or those of each step of a scale
that ranks its steps (`flatMap_filter_step`).
-/

namespace Checkup

variable {α β : Type} {rank : α → Nat} {xs ys : List α} {x y : α}

/-- Whether the members stand in the order of their ranks. -/
abbrev Ranked (rank : α → Nat) (xs : List α) : Prop := xs.Pairwise fun a b => rank a ≤ rank b

/-- Sorts by rank. Members of one rank keep their order. -/
abbrev sortByRank (rank : α → Nat) (xs : List α) : List α := xs.mergeSort fun a b => decide (rank a ≤ rank b)

theorem mem_iff_of_filter_rank (h : ∀ n, xs.filter (rank · == n) = ys.filter (rank · == n)) : x ∈ xs ↔ x ∈ ys := by
  have hx : x ∈ xs.filter (rank · == rank x) ↔ x ∈ ys.filter (rank · == rank x) := by rw [h]
  simpa only [List.mem_filter, beq_self_eq_true, and_true] using hx

theorem Ranked.head_le (h : Ranked rank (x :: xs)) (hy : y ∈ x :: xs) : rank x ≤ rank y := by
  rcases List.mem_cons.mp hy with rfl | hy
  · exact Nat.le_refl _
  · exact (List.pairwise_cons.mp h).1 y hy

/-- Two lists in the order of the ranks are one if they hold the same of each rank. -/
theorem Ranked.eq_of_filter (hxs : Ranked rank xs) (hys : Ranked rank ys)
    (h : ∀ n, xs.filter (rank · == n) = ys.filter (rank · == n)) : xs = ys := by
  induction xs generalizing ys with
  | nil =>
    cases ys with
    | nil => rfl
    | cons y ys => exact absurd ((mem_iff_of_filter_rank h).mpr List.mem_cons_self) List.not_mem_nil
  | cons x xs ih =>
    cases ys with
    | nil => exact absurd ((mem_iff_of_filter_rank h).mp List.mem_cons_self) List.not_mem_nil
    | cons y ys =>
      -- each head is in the other list, so both are of the least rank that there is
      have hxy := hxs.head_le ((mem_iff_of_filter_rank h).mpr List.mem_cons_self)
      have hyx := hys.head_le ((mem_iff_of_filter_rank h).mp List.mem_cons_self)
      have hrank : rank x = rank y := Nat.le_antisymm hxy hyx
      have hhead : x = y := by
        have hsame := h (rank x)
        simp only [List.filter_cons, hrank, beq_self_eq_true, if_true, List.cons.injEq] at hsame
        exact hsame.1
      subst hhead
      have htail : ∀ n, xs.filter (rank · == n) = ys.filter (rank · == n) := by
        intro n
        have hsame := h n
        simp only [List.filter_cons] at hsame
        split at hsame
        · exact (List.cons.inj hsame).2
        · exact hsame
      exact congrArg (x :: ·) (ih hxs.tail hys.tail htail)

theorem rank_of_mem_filter {n : Nat} (h : x ∈ xs.filter (rank · == n)) : rank x = n :=
  eq_of_beq (List.mem_filter.mp h).2

theorem le_total_rank (rank : α → Nat) (a b : α) : (decide (rank a ≤ rank b) || decide (rank b ≤ rank a)) = true := by
  simp only [Bool.or_eq_true, decide_eq_true_eq]
  omega

theorem le_trans_rank (rank : α → Nat) (a b c : α) (hab : decide (rank a ≤ rank b) = true)
    (hbc : decide (rank b ≤ rank c) = true) : decide (rank a ≤ rank c) = true := by
  simp only [decide_eq_true_eq] at *
  omega

theorem ranked_sortByRank (rank : α → Nat) (xs : List α) : Ranked rank (sortByRank rank xs) :=
  (List.pairwise_mergeSort (le_trans_rank rank) (le_total_rank rank) xs).imp fun h => of_decide_eq_true h

/-- Sorting keeps the members of each rank in their order. -/
theorem filter_sortByRank (n : Nat) (xs : List α) :
    (sortByRank rank xs).filter (rank · == n) = xs.filter (rank · == n) := by
  have hranked : (xs.filter (rank · == n)).Pairwise fun a b => decide (rank a ≤ rank b) = true := by
    refine List.pairwise_of_forall_mem_list fun a ha b hb => decide_eq_true ?_
    exact Nat.le_of_eq ((rank_of_mem_filter ha).trans (rank_of_mem_filter hb).symm)
  have hsub : (xs.filter (rank · == n)).Sublist (sortByRank rank xs) :=
    List.sublist_mergeSort (le_trans_rank rank) (le_total_rank rank) hranked List.filter_sublist
  have hsub := hsub.filter (rank · == n)
  rw [List.filter_filter] at hsub
  simp only [Bool.and_self] at hsub
  exact (hsub.eq_of_length ((List.mergeSort_perm xs _).filter _).length_eq.symm).symm

/-! ## Rank after rank -/

theorem filter_filter_rank (m n : Nat) (xs : List α) :
    (xs.filter (rank · == m)).filter (rank · == n) = if m = n then xs.filter (rank · == n) else [] := by
  rw [List.filter_filter]
  split
  · rename_i hmn
    rw [hmn]
    simp only [Bool.and_self]
  · rename_i hmn
    refine List.filter_eq_nil_iff.mpr fun x _ hx => hmn ?_
    simp only [Bool.and_eq_true, beq_iff_eq] at hx
    exact hx.2.symm.trans hx.1

/-- What only one of different ranks contributes. -/
theorem flatMap_ite_eq {ranks : List Nat} (h : ranks.Nodup) (n : Nat) (l : List α) :
    (ranks.flatMap fun m => if m = n then l else []) = if n ∈ ranks then l else [] := by
  induction ranks with
  | nil => rfl
  | cons m ranks ih =>
    obtain ⟨hm, h⟩ := List.nodup_cons.mp h
    rw [List.flatMap_cons, ih h]
    by_cases hmn : m = n
    · subst hmn
      simp [hm]
    · simp [hmn, Ne.symm hmn]

/-- **Sorting writes down the members of each rank**, rank after rank. -/
theorem flatMap_filter_rank {ranks : List Nat} (hranks : ranks.Pairwise (· < ·)) (hxs : ∀ x ∈ xs, rank x ∈ ranks) :
    ranks.flatMap (fun n => xs.filter (rank · == n)) = sortByRank rank xs := by
  have hranked : Ranked rank (ranks.flatMap fun n => xs.filter (rank · == n)) := by
    refine List.pairwise_flatMap.mpr ⟨fun n _ => List.pairwise_of_forall_mem_list fun a ha b hb => ?_,
      hranks.imp fun h a ha b hb => ?_⟩
    · exact Nat.le_of_eq ((rank_of_mem_filter ha).trans (rank_of_mem_filter hb).symm)
    · rw [rank_of_mem_filter ha, rank_of_mem_filter hb]
      exact Nat.le_of_lt h
  refine hranked.eq_of_filter (ranked_sortByRank rank xs) fun n => ?_
  rw [filter_sortByRank, List.filter_flatMap]
  simp only [filter_filter_rank]
  rw [flatMap_ite_eq (hranks.imp fun h => Nat.ne_of_lt h)]
  split
  · rfl
  · rename_i hn
    have hempty : xs.filter (rank · == n) = [] :=
      List.filter_eq_nil_iff.mpr fun x hx h => hn ((eq_of_beq h : rank x = n) ▸ hxs x hx)
    exact hempty.symm

/-- Sorting by the rank on a scale writes down the members of each step, step after step. -/
theorem flatMap_filter_step [DecidableEq β] (place : β → Nat) (step : α → β) {steps : List β}
    (hplace : Function.Injective place) (hsteps : steps.Pairwise fun s t => place s < place t)
    (hxs : ∀ x ∈ xs, step x ∈ steps) :
    steps.flatMap (fun s => xs.filter (step · == s)) = sortByRank (fun x => place (step x)) xs := by
  have hstep : ∀ s, xs.filter (step · == s) = xs.filter (fun x => place (step x) == place s) := by
    refine fun s => List.filter_congr fun x _ => Bool.eq_iff_iff.mpr ?_
    simp only [beq_iff_eq, hplace.eq_iff]
  calc steps.flatMap (fun s => xs.filter (step · == s))
    _ = (steps.map place).flatMap fun n => xs.filter fun x => place (step x) == n := by
      simp only [hstep, List.flatMap_map]
    _ = sortByRank (fun x => place (step x)) xs :=
      flatMap_filter_rank (List.pairwise_map.mpr hsteps) fun x hx => List.mem_map_of_mem (hxs x hx)

end Checkup
