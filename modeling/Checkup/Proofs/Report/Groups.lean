import Mathlib.Data.List.Basic
import Checkup.Proofs.Aggregation
import Checkup.Proofs.Ranked
import Checkup.Report.View

/-!
# Groups of findings

A view lists the findings of some severities. One after the other, its groups are these findings with the worst first,
and those of one severity in their order (`ReportView.groups_flatMap`): sorting by severity writes down the findings of
each severity, the worst first (`flatMap_ofSeverity`).
-/

namespace Checkup

variable {fs gs : List Finding} {f g : Finding}

/-! ## Findings of one severity -/

/-- The findings of one severity, in their order. -/
abbrev ofSeverity (s : Severity) (fs : List Finding) : List Finding := fs.filter fun f => f.severity == s

theorem mem_ofSeverity {s : Severity} : f ∈ ofSeverity s fs ↔ f ∈ fs ∧ f.severity = s := by
  simp [ofSeverity]

/-- Whether the findings of a list stand with the worst first. -/
abbrev WorstFirst (fs : List Finding) : Prop := Ranked (fun f => f.severity.rank) fs

/-- Sorting does nothing to a list with the worst first. -/
theorem WorstFirst.sortBySeverity_eq (h : WorstFirst fs) : sortBySeverity fs = fs :=
  Ranked.eq_of_filter (ranked_sortByRank _ fs) h fun n => filter_sortByRank n fs

theorem Severity.all_strict : Severity.all.Pairwise fun s t => s.rank < t.rank := by decide

/-- Sorting puts the findings of each severity behind those of the worse ones. -/
theorem flatMap_ofSeverity (fs : List Finding) :
    Severity.all.flatMap (fun s => ofSeverity s fs) = sortBySeverity fs :=
  flatMap_filter_step Severity.rank Finding.severity (fun _ _ => Severity.rank_injective) Severity.all_strict
    fun f _ => by cases f.severity <;> decide

/-! ## The groups of a view -/

/-- Members that contribute nothing may be left out. -/
theorem flatMap_filter_of_nil {α β : Type} {p : α → Bool} {f : α → List β} {l : List α}
    (h : ∀ a ∈ l, p a = false → f a = []) : (l.filter p).flatMap f = l.flatMap f := by
  induction l with
  | nil => rfl
  | cons a l ih =>
    obtain ⟨ha, h⟩ := List.forall_mem_cons.mp h
    rw [List.filter_cons, List.flatMap_cons]
    split
    · rw [List.flatMap_cons, ih h]
    · rename_i hp
      rw [ha (by simpa using hp), ih h, List.nil_append]

namespace ReportView

variable (v : ReportView)

theorem ofSeverity_findings (s : Severity) :
    ofSeverity s v.findings = if v.lists s then ofSeverity s v.result.findings else [] := by
  rw [ofSeverity, findings, List.filter_filter]
  split
  · rename_i h
    refine List.filter_congr fun f _ => ?_
    by_cases hf : f.severity = s <;> simp [hf, h]
  · rename_i h
    refine List.filter_eq_nil_iff.mpr fun f _ hf => h ?_
    simp only [Bool.and_eq_true, beq_iff_eq] at hf
    exact hf.1 ▸ hf.2

/-- One after the other, the groups are the listed findings with the worst first. -/
theorem groups_flatMap : v.groups.flatMap FindingGroup.findings = sortBySeverity v.findings := by
  have hlisted : ∀ s ∈ Severity.all.filter v.lists, (v.group s).findings = ofSeverity s v.findings := by
    intro s hs
    rw [ofSeverity_findings, if_pos (List.mem_filter.mp hs).2]
    rfl
  calc v.groups.flatMap FindingGroup.findings
    _ = ((Severity.all.filter v.lists).map v.group).flatMap FindingGroup.findings :=
      flatMap_filter_of_nil fun g _ hg => by simpa using hg
    _ = (Severity.all.filter v.lists).flatMap fun s => ofSeverity s v.findings := by
      rw [List.flatMap_map]
      exact List.flatMap_congr hlisted
    _ = Severity.all.flatMap fun s => ofSeverity s v.findings :=
      flatMap_filter_of_nil fun s _ hs => by rw [ofSeverity_findings, hs]; rfl
    _ = sortBySeverity v.findings := flatMap_ofSeverity _

/-- A group is what the view lists of one severity, and that is something. -/
theorem mem_groups {g : FindingGroup} (hg : g ∈ v.groups) :
    g.findings = ofSeverity g.severity v.findings ∧ g.findings ≠ [] := by
  obtain ⟨hg, hne⟩ := List.mem_filter.mp hg
  obtain ⟨s, hs, rfl⟩ := List.mem_map.mp hg
  refine ⟨?_, by simpa using hne⟩
  show ofSeverity s v.result.findings = ofSeverity s v.findings
  rw [ofSeverity_findings, if_pos (List.mem_filter.mp hs).2]

/-- Groups of worse severities come first. -/
theorem groups_strict : v.groups.Pairwise fun g g' => g.severity.rank < g'.severity.rank :=
  ((Severity.all_strict.filter v.lists).map v.group fun _ _ h => h).filter _

end ReportView

end Checkup
