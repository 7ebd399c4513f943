import Mathlib.Data.List.Perm.Subperm
import Mathlib.Algebra.Order.BigOperators.Group.List
import Checkup.Proofs.Aggregation
import Checkup.Proofs.Double.Round

/-!
# What the score depends on

The score is computed with doubles, from findings without repetitions. Seen from outside it is 100 without the points
that are lost, and which finding of an issue comes first does not matter if they are all of one severity.

* `Penalties.score_eq`: the doubles are exact, and a score does not fall below zero.
* `issues_subset`, `issues_nodup`: the issues behind a list of findings.
* `ScanInputs.lost_le`: more findings lose more points.
* `ScanInputs.result_score`: the score, its independence of the order, and that more findings do not raise it.
-/

namespace Checkup

/-! ## The arithmetic -/

namespace Penalties

variable {p : Penalties}

theorem score_of_le (h : p.total ≤ 100) : p.score = 100 - p.total := by
  have hall : ∀ n : Fin 101,
      min 255 (Decimal.Dyadic.ofFloat (clamp 0 100 (100 - (UInt32.ofNat n).toFloat))).nearest = 100 - n := by
    decide +kernel
  exact hall ⟨p.total, by omega⟩

theorem remaining_neg (h : 100 < p.total) (hword : p.total < 2 ^ 32) : p.remaining < 0 := by
  have hundred : (100 : Float) = (100 : UInt32).toFloat := by rfl
  have hlt : (100 : UInt32) < UInt32.ofNat p.total := by
    rw [UInt32.lt_iff_toNat_lt, UInt32.toNat_ofNat_of_lt' hword]
    exact h
  rw [remaining, hundred]
  exact Double.sub_neg (by decide) hlt

theorem score_of_gt (h : 100 < p.total) (hword : p.total < 2 ^ 32) : p.score = 0 := by
  have hclamp : clamp 0 100 p.remaining = 0 := by
    have hneg := remaining_neg h hword
    have hbound : ¬ (100 : Float) < 0 := by decide
    simp only [clamp, if_pos hneg, if_neg hbound]
  rw [score, hclamp]
  decide +kernel

/-- The subtraction, the bounds, the rounding and the byte are exact. -/
theorem score_eq (hword : p.total < 2 ^ 32) : p.score = 100 - min 100 p.total := by
  rcases Nat.lt_or_ge 100 p.total with h | h
  · rw [score_of_gt h hword, Nat.min_eq_left h.le]
  · rw [score_of_le h, Nat.min_eq_right h]

end Penalties

/-! ## Issues -/

variable {fs gs : List Finding} {f g : Finding}

/-- Findings about one issue are of one severity. -/
def Consistent (fs : List Finding) : Prop := ∀ f ∈ fs, ∀ g ∈ fs, f.key = g.key → f.severity = g.severity

instance (fs : List Finding) : Decidable (Consistent fs) := inferInstanceAs (Decidable (∀ f ∈ fs, _))

/-- The issues of a list of findings, each with the severity of its first finding. -/
def issues (fs : List Finding) : List ((String × Location × String) × Severity) :=
  (dedup fs).map fun f => (f.key, f.severity)

theorem FirstIn.eq_of_key (hf : FirstIn fs f) (hg : FirstIn fs g) (hkey : f.key = g.key) : f = g := by
  induction fs with
  | nil => exact absurd hf not_firstIn_nil
  | cons x fs ih =>
    rcases firstIn_cons.mp hf with rfl | ⟨hxf, hf⟩ <;> rcases firstIn_cons.mp hg with rfl | ⟨hxg, hg⟩
    · rfl
    · exact absurd hkey hxg
    · exact absurd hkey.symm hxf
    · exact ih hf hg

theorem exists_firstIn (h : f ∈ fs) : ∃ g, FirstIn fs g ∧ g.key = f.key := by
  induction fs with
  | nil => cases h
  | cons x fs ih =>
    by_cases hx : x.key = f.key
    · exact ⟨x, firstIn_cons.mpr (Or.inl rfl), hx⟩
    · have hf : f ∈ fs := (List.mem_cons.mp h).resolve_left fun e => hx (e ▸ rfl)
      obtain ⟨g, hg, hkey⟩ := ih hf
      exact ⟨g, firstIn_cons.mpr (Or.inr ⟨fun e => hx (e.trans hkey), hg⟩), hkey⟩

theorem issues_nodup : (issues fs).Nodup := by
  refine dedup_nodup.map_on fun f hf g hg h => ?_
  exact (mem_dedup.mp hf).eq_of_key (mem_dedup.mp hg) (Prod.mk.inj h).1

/-- More findings, at whatever place, are about more issues. -/
theorem issues_subset (hgs : Consistent gs) (h : ∀ f ∈ fs, f ∈ gs) : issues fs ⊆ issues gs := by
  intro x hx
  obtain ⟨f, hf, rfl⟩ := List.mem_map.mp hx
  have hmem : f ∈ gs := h f (mem_dedup.mp hf).mem
  obtain ⟨g, hg, hkey⟩ := exists_firstIn hmem
  have hsev : g.severity = f.severity := hgs g hg.mem f hmem hkey
  exact List.mem_map.mpr ⟨g, mem_dedup.mpr hg, Prod.ext hkey hsev⟩

/-! ## Points -/

theorem sum_le_of_subperm {α : Type} {xs ys : List α} (weight : α → Nat) (h : xs.Subperm ys) :
    (xs.map weight).sum ≤ (ys.map weight).sum := by
  obtain ⟨zs, hperm, hsub⟩ := h
  rw [← (hperm.map weight).sum_eq]
  exact (hsub.map weight).sum_le_sum fun _ _ => Nat.zero_le _

theorem penalties_le (hgs : Consistent gs) (h : ∀ f ∈ fs, f ∈ gs) :
    ((dedup fs).map fun f => f.severity.penalty).sum ≤ ((dedup gs).map fun f => f.severity.penalty).sum := by
  have hissues : (issues fs).Subperm (issues gs) := List.subperm_of_subset issues_nodup (issues_subset hgs h)
  have hsum := sum_le_of_subperm (fun x => x.2.penalty) hissues
  simp only [issues, List.map_map] at hsum
  exact hsum

namespace ScanInputs

variable {i j : ScanInputs}

/-- The points that a scan loses: for each issue, each dependency, each advisory and the components in the browser. -/
def lost (i : ScanInputs) : Nat :=
  ((dedup i.collected).map fun f => f.severity.penalty).sum +
    (i.dependencyIssues.map fun d => d.severity.penalty).sum +
    (i.vulnerabilities.map fun v => v.severity.penalty).sum + clientRatioPenalty i.stats

theorem clientRatioPenalty_finalStats (i : ScanInputs) :
    clientRatioPenalty i.finalStats = clientRatioPenalty i.stats := by
  unfold finalStats
  split <;> rfl

theorem penalties_total (i : ScanInputs) : i.penalties.total = i.lost := by
  have hsort : (i.findings.map fun f => f.severity.penalty).sum =
      ((dedup i.collected).map fun f => f.severity.penalty).sum := ((sortBySeverity_perm _).map _).sum_eq
  rw [lost, ← hsort, ← clientRatioPenalty_finalStats]
  rfl

/-- `j` is `i` with further findings in any of its lists at any places, further issues of dependencies and further
advisories; findings may have moved, within their lists and to other lists. -/
structure Extends (i j : ScanInputs) : Prop where
  stats : i.stats = j.stats
  findings : i.collected.Subperm j.collected
  dependencyIssues : i.dependencyIssues.Subperm j.dependencyIssues
  vulnerabilities : i.vulnerabilities.Subperm j.vulnerabilities

/-- `j` is `i` in another order; findings may have moved to other lists. -/
structure Reorders (i j : ScanInputs) : Prop where
  stats : i.stats = j.stats
  findings : i.collected.Perm j.collected
  dependencyIssues : i.dependencyIssues.Perm j.dependencyIssues
  vulnerabilities : i.vulnerabilities.Perm j.vulnerabilities

theorem Reorders.symm (h : i.Reorders j) : j.Reorders i :=
  ⟨h.stats.symm, h.findings.symm, h.dependencyIssues.symm, h.vulnerabilities.symm⟩

theorem Reorders.extends (h : i.Reorders j) : i.Extends j :=
  ⟨h.stats, h.findings.subperm, h.dependencyIssues.subperm, h.vulnerabilities.subperm⟩

theorem lost_le (h : i.Extends j) (hj : Consistent j.collected) : i.lost ≤ j.lost := by
  have hfindings := penalties_le hj fun f hf => h.findings.subset hf
  have hissues := sum_le_of_subperm (fun d => d.severity.penalty) h.dependencyIssues
  have hvulnerabilities := sum_le_of_subperm (fun v => v.severity.penalty) h.vulnerabilities
  unfold lost
  rw [h.stats]
  omega

theorem lost_eq (h : i.Reorders j) (hj : Consistent j.collected) : i.lost = j.lost := by
  have hi : Consistent i.collected := fun f hf g hg =>
    hj f (h.findings.mem_iff.mp hf) g (h.findings.mem_iff.mp hg)
  exact Nat.le_antisymm (lost_le h.extends hj) (lost_le h.symm.extends hi)

theorem result_score_eq (elapsedMs : Nat) (h : i.lost < 2 ^ 32) :
    (i.result elapsedMs).score = 100 - min 100 i.lost := by
  rw [← penalties_total] at h ⊢
  exact Penalties.score_eq h

/-- **The score of a scan.** It is 100 without the points that are lost, at least zero. If all findings of one issue
are of one severity, then no order of the findings, of the issues of dependencies or of the advisories changes it, and
it does not rise when some are added. -/
theorem result_score (i j : ScanInputs) (elapsedMs elapsedMs' : Nat) (hword : j.lost < 2 ^ 32) :
    (j.result elapsedMs).score = 100 - min 100 j.lost ∧
    (Consistent j.collected →
      (i.Reorders j → (i.result elapsedMs').score = (j.result elapsedMs).score) ∧
      (i.Extends j → (j.result elapsedMs).score ≤ (i.result elapsedMs').score)) := by
  refine ⟨result_score_eq elapsedMs hword, fun hj => ⟨fun h => ?_, fun h => ?_⟩⟩
  · have hlost := lost_eq h hj
    rw [result_score_eq elapsedMs hword, result_score_eq elapsedMs' (hlost ▸ hword), hlost]
  · have hlost := lost_le h hj
    rw [result_score_eq elapsedMs hword, result_score_eq elapsedMs' (by omega)]
    omega

/-- Findings about two issues, an advisory and Next.js with all components in the browser. -/
def sample (rules lint config : List Finding) (issues : List DependencyIssue) : ScanInputs where
  ruleFindings := rules
  lint := ⟨lint, 3⟩
  configFindings := config
  stats := ⟨none, some "15.0.0", true, 2, 2, 0, [], true, none, none⟩
  statsFindings := []
  dependencyIssues := issues
  vulnerabilities := [⟨1, "next", "Cache poisoning", .high, "", "<15.1.0", [], none⟩]
  diagnostics := []

/-- An unstable key, found by the rules, by the linter and with a help text. -/
theorem result_score_sample :
    let key (help : Option String) : Finding :=
      ⟨.performance, "array-index-key", "Index as key", help, .file "a.tsx", none⟩
    let strict : Finding := ⟨.bestPractice, "typescript-strict", "Not strict", none, .file "tsconfig.json", none⟩
    let unused : DependencyIssue := ⟨.unused, some "lodash", "Unused dependency", .bestPractice⟩
    let few := sample [key none] [] [strict] []
    let moved := sample [] [strict, key none] [] []
    let many := sample [key none] [key none, key (some "Use an id.")] [strict] [unused]
    ((moved.result 5).score = 83 ∧ (few.result 0).score = (moved.result 5).score) ∧
      (many.result 7).score ≤ (few.result 0).score := by
  intro key strict unused few moved many
  have hmoved := result_score few moved 5 0 (by decide +kernel)
  have hmany := result_score few many 7 0 (by decide +kernel)
  refine ⟨⟨hmoved.1.trans (by decide +kernel), ?_⟩, ?_⟩
  · exact (hmoved.2 (by decide +kernel)).1 ⟨rfl, by decide +kernel, by decide, .refl _⟩
  · have hfindings : few.collected.Sublist many.collected := by decide +kernel
    exact (hmany.2 (by decide +kernel)).2 ⟨rfl, hfindings.subperm, List.nil_subperm, .refl _⟩

end ScanInputs

end Checkup
