import Checkup.Score

/-!
# What becomes of the findings of all parts

The parts of a scan report one list of findings after the other (`ScanInputs.collected`). The result keeps the first
finding of each issue and puts the worst first.

* `mem_dedup`, `dedup_ordered`: `dedup` keeps exactly the first finding of each issue, in order.
* `sortBySeverity_ordered`: sorting keeps the order of findings of one severity.
* `Aggregated`: what the findings of a result are, said without `dedup` and `sortBySeverity`; there is one such list
  (`Aggregated.unique`), and it is that of the result (`result_aggregated`).
-/

namespace Checkup

variable {fs : List Finding} {f a b : Finding} {seen : List (String × Location × String)}

/-! ## The first finding of each issue -/

/-- `f` is the first finding of the list about its issue. -/
def FirstIn (fs : List Finding) (f : Finding) : Prop :=
  ∃ before after, fs = before ++ f :: after ∧ ∀ g ∈ before, g.key ≠ f.key

theorem FirstIn.mem (h : FirstIn fs f) : f ∈ fs := by
  obtain ⟨before, after, rfl, _⟩ := h
  simp

theorem not_firstIn_nil : ¬ FirstIn [] f := fun h => by cases h.mem

/-- The first finding of a list with a head: the head, or the first of the rest if it is about another issue. -/
theorem firstIn_cons {g : Finding} : FirstIn (g :: fs) f ↔ f = g ∨ (g.key ≠ f.key ∧ FirstIn fs f) := by
  constructor
  · rintro ⟨before, after, h, hkeys⟩
    cases before with
    | nil => simp only [List.nil_append, List.cons.injEq] at h; exact Or.inl h.1.symm
    | cons g' before =>
      simp only [List.cons_append, List.cons.injEq] at h
      obtain ⟨rfl, rfl⟩ := h
      exact Or.inr ⟨hkeys g (by simp), before, after, rfl, fun x hx => hkeys x (by simp [hx])⟩
  · rintro (rfl | ⟨hg, before, after, rfl, hkeys⟩)
    · exact ⟨[], fs, rfl, by simp⟩
    · refine ⟨g :: before, after, rfl, fun x hx => ?_⟩
      rcases List.mem_cons.mp hx with rfl | hx
      · exact hg
      · exact hkeys x hx

theorem mem_dedupFrom : f ∈ dedupFrom seen fs ↔ f.key ∉ seen ∧ FirstIn fs f := by
  induction fs generalizing seen with
  | nil => simp [dedupFrom, not_firstIn_nil]
  | cons g fs ih =>
    by_cases hg : g.key ∈ seen
    · have hne : f.key ∉ seen → f ≠ g ∧ g.key ≠ f.key :=
        fun hf => ⟨fun e => hf (e ▸ hg), fun e => hf (e ▸ hg)⟩
      simp only [dedupFrom, List.contains_iff_mem, hg, if_true, ih, firstIn_cons]
      constructor
      · rintro ⟨hf, h⟩; exact ⟨hf, Or.inr ⟨(hne hf).2, h⟩⟩
      · rintro ⟨hf, h | ⟨_, h⟩⟩
        · exact absurd h (hne hf).1
        · exact ⟨hf, h⟩
    · simp only [dedupFrom, List.contains_iff_mem, hg, if_false, List.mem_cons, ih, firstIn_cons, not_or]
      constructor
      · rintro (rfl | ⟨⟨hgf, hf⟩, h⟩)
        · exact ⟨hg, Or.inl rfl⟩
        · exact ⟨hf, Or.inr ⟨fun e => hgf e.symm, h⟩⟩
      · rintro ⟨hf, rfl | ⟨hgf, h⟩⟩
        · exact Or.inl rfl
        · exact Or.inr ⟨⟨fun e => hgf e.symm, hf⟩, h⟩

/-- Deduplication keeps exactly the first finding of each issue. -/
theorem mem_dedup : f ∈ dedup fs ↔ FirstIn fs f := by simp [dedup, mem_dedupFrom]

theorem idxOf_cons_of_ne (h : a ≠ b) : (a :: fs).idxOf b = fs.idxOf b + 1 := by
  simp [List.idxOf_cons, beq_false_of_ne h]

/-- What is kept stands in the order of its first occurrences. -/
theorem dedupFrom_ordered : (dedupFrom seen fs).Pairwise fun a b => fs.idxOf a < fs.idxOf b := by
  induction fs generalizing seen with
  | nil => exact List.Pairwise.nil
  | cons g fs ih =>
    -- behind the head, nothing about the issue of the head is kept, so all places move by one
    have shift : ∀ {seen}, g.key ∈ seen → (dedupFrom seen fs).Pairwise fun a b =>
        (g :: fs).idxOf a < (g :: fs).idxOf b := by
      intro seen hg
      refine (@ih seen).imp_of_mem fun {a b} ha hb h => ?_
      have ne : ∀ {x}, x ∈ dedupFrom seen fs → g ≠ x := fun hx e => (mem_dedupFrom.mp hx).1 (e ▸ hg)
      rw [idxOf_cons_of_ne (ne ha), idxOf_cons_of_ne (ne hb)]
      exact Nat.succ_lt_succ h
    by_cases hg : g.key ∈ seen
    · simp only [dedupFrom, List.contains_iff_mem, hg, if_true]
      exact shift hg
    · simp only [dedupFrom, List.contains_iff_mem, hg, if_false, List.pairwise_cons]
      refine ⟨fun x hx => ?_, shift (by simp)⟩
      have hne : g ≠ x := fun e => (mem_dedupFrom.mp hx).1 (by simp [e])
      rw [List.idxOf_cons_self, idxOf_cons_of_ne hne]
      exact Nat.succ_pos _

theorem dedup_ordered : (dedup fs).Pairwise fun a b => fs.idxOf a < fs.idxOf b := dedupFrom_ordered

theorem dedup_nodup : (dedup fs).Nodup :=
  dedup_ordered.imp fun h e => by subst e; exact Nat.lt_irrefl _ h

/-! ## Sorting -/

theorem sortBySeverity_perm (fs : List Finding) : (sortBySeverity fs).Perm fs := List.mergeSort_perm _ _

theorem sortBySeverity_worst_first :
    (sortBySeverity fs).Pairwise fun a b => a.severity.rank ≤ b.severity.rank := by
  have h := @List.pairwise_mergeSort Finding (fun a b => decide (a.severity.rank ≤ b.severity.rank))
    (fun a b c hab hbc => by simp only [decide_eq_true_eq] at *; omega)
    (fun a b => by simp only [Bool.or_eq_true, decide_eq_true_eq]; omega) fs
  exact h.imp fun h => of_decide_eq_true h

/-- Of two members of a list, one stands before the other. -/
theorem pair_sublist (ha : a ∈ fs) (hb : b ∈ fs) (hne : a ≠ b) : [a, b].Sublist fs ∨ [b, a].Sublist fs := by
  induction fs with
  | nil => cases ha
  | cons g fs ih =>
    rcases List.mem_cons.mp ha with ha | ha <;> rcases List.mem_cons.mp hb with hb | hb
    · exact absurd (ha.trans hb.symm) hne
    · exact Or.inl (ha ▸ .cons_cons _ (List.singleton_sublist.mpr hb))
    · exact Or.inr (hb ▸ .cons_cons _ (List.singleton_sublist.mpr ha))
    · exact (ih ha hb).imp (.cons _) (.cons _)

/-- In a list without repetitions, one of two members stands before the other and not behind it. -/
theorem not_pair_sublist (h : fs.Nodup) (hab : [a, b].Sublist fs) : ¬ [b, a].Sublist fs := by
  induction fs with
  | nil => cases hab
  | cons g fs ih =>
    obtain ⟨hg, h⟩ := List.nodup_cons.mp h
    intro hba
    cases hab with
    | cons _ hab =>
      cases hba with
      | cons _ hba => exact ih h hab hba
      | cons_cons _ hba => exact hg (hab.subset (by simp))
    | cons_cons _ hab =>
      cases hba with
      | cons _ hba => exact hg (hba.subset (by simp))
      | cons_cons _ hba => exact hg (hab.subset (by simp))

/-- Findings of one severity keep whatever order the list has them in. -/
theorem sortBySeverity_ordered {place : Finding → Nat} (h : fs.Pairwise fun a b => place a < place b) :
    (sortBySeverity fs).Pairwise fun a b => a.severity = b.severity → place a < place b := by
  have hnodup : (sortBySeverity fs).Nodup :=
    (sortBySeverity_perm fs).symm.nodup (h.imp fun h e => by subst e; exact Nat.lt_irrefl _ h)
  rw [List.pairwise_iff_forall_sublist] at h ⊢
  intro a b hab hs
  have hmem : ∀ {x}, x ∈ [a, b] → x ∈ fs := fun hx => (sortBySeverity_perm fs).subset (hab.subset hx)
  have hne : a ≠ b := List.pairwise_iff_forall_sublist.mp hnodup hab
  rcases pair_sublist (hmem (by simp)) (hmem (by simp)) hne with hfs | hfs
  · exact h hfs
  · -- stability puts `b` before `a` as well, but the sorted list holds each only once
    have hba : [b, a].Sublist (sortBySeverity fs) :=
      List.pair_sublist_mergeSort (fun a b c hab hbc => by simp only [decide_eq_true_eq] at *; omega)
        (fun a b => by simp only [Bool.or_eq_true, decide_eq_true_eq]; omega) (by simp [hs]) hfs
    exact absurd hba (not_pair_sublist hnodup hab)

/-! ## The findings of a result -/

/-- What the findings `out` of a result are to the findings `fs` that the parts report: of each issue the first
finding, once, the worst first, and those of one severity in their order. -/
structure Aggregated (fs out : List Finding) : Prop where
  mem_iff : ∀ f, f ∈ out ↔ FirstIn fs f
  nodup : out.Nodup
  worst_first : out.Pairwise fun a b => a.severity.rank ≤ b.severity.rank
  ordered : out.Pairwise fun a b => a.severity = b.severity → fs.idxOf a < fs.idxOf b

theorem Aggregated.of_sort_dedup (fs : List Finding) : Aggregated fs (sortBySeverity (dedup fs)) where
  mem_iff _ := (sortBySeverity_perm _).mem_iff.trans mem_dedup
  nodup := (sortBySeverity_perm _).symm.nodup dedup_nodup
  worst_first := sortBySeverity_worst_first
  ordered := sortBySeverity_ordered dedup_ordered

theorem Severity.rank_injective {s t : Severity} (h : s.rank = t.rank) : s = t := by
  cases s <;> cases t <;> first | rfl | exact absurd h (by decide)

/-- The findings are the only list of that kind. -/
theorem Aggregated.unique {out out' : List Finding} (h : Aggregated fs out) (h' : Aggregated fs out') :
    out = out' := by
  have hperm : out.Perm out' :=
    (List.perm_ext_iff_of_nodup h.nodup h'.nodup).mpr fun f => (h.mem_iff f).trans (h'.mem_iff f).symm
  refine List.Perm.eq_of_pairwise (fun a b _ _ hab hba => ?_) (h.worst_first.and h.ordered)
    (h'.worst_first.and h'.ordered) hperm
  have hs : a.severity = b.severity := Severity.rank_injective (Nat.le_antisymm hab.1 hba.1)
  exact absurd (hab.2 hs) (Nat.lt_asymm (hba.2 hs.symm))

namespace ScanInputs

/-- The findings of all parts, one part after the other. -/
def collected (i : ScanInputs) : List Finding :=
  i.ruleFindings ++ i.lint.findings ++ i.configFindings ++ i.statsFindings

/-- **The result of a scan.** Its findings are what `Aggregated` says of the findings of all parts, and nothing else
is; everything else comes out as it went in, but for the number of files if the linter counted some. -/
theorem result_aggregated (i : ScanInputs) (elapsedMs : Nat) :
    (∀ out, Aggregated i.collected out ↔ out = (i.result elapsedMs).findings) ∧
    (i.result elapsedMs).dependencyIssues = i.dependencyIssues ∧
    (i.result elapsedMs).diagnostics = i.diagnostics ∧
    (i.result elapsedMs).security.vulnerabilities = i.vulnerabilities ∧
    (i.result elapsedMs).stats =
      { i.stats with totalFiles := if i.lint.fileCount = 0 then i.stats.totalFiles else i.lint.fileCount } := by
  have hresult : Aggregated i.collected (i.result elapsedMs).findings := .of_sort_dedup i.collected
  refine ⟨fun out => ⟨fun h => h.unique hresult, fun h => h ▸ hresult⟩, rfl, rfl, rfl, ?_⟩
  show i.finalStats = _
  unfold finalStats
  by_cases h : i.lint.fileCount = 0
  · simp [h]
  · simp [h, Nat.pos_of_ne_zero h]

end ScanInputs

end Checkup
