import Checkup.Proofs.Rule.Ownership
import Checkup.Rule.Sweep

/-!
# Sweeps with rules left out

Leaving out rules takes their findings and diagnostics out of a sweep and leaves all others as they are, in their
order (`Sweep.ofFiles_withoutRules`). For rules in general it is enough that each reports under its own name
(`Rule.ReportsOwn`): suppression looks at one finding at a time (`keepUnsuppressed_eq_filter`), and so does leaving
out.
-/

namespace Checkup

/-- Whether the rule reports under its own name only. -/
def Rule.ReportsOwn (r : Rule) : Prop :=
  ∀ path content fs, r.detect path content = .ok fs → ∀ f ∈ fs, f.ruleId = r.info.id

theorem Rule.ReportsSpots.reportsOwn {r : Rule} {spots : String → Text → List Spot} (h : r.ReportsSpots spots) :
    r.ReportsOwn := fun _ _ _ hd _ hf => (h.bears hd hf).ruleId

/-- Suppression is a test of each finding on its own. -/
theorem keepUnsuppressed_eq_filter (content : Text) (fs : List Finding) :
    keepUnsuppressed content fs =
      fs.filter fun f => !(Text.occurs ignoreMarker content && isSuppressed (Text.lines content) f) := by
  unfold keepUnsuppressed
  by_cases hm : Text.occurs ignoreMarker content = true
  · cases fs <;> simp [hm]
  · simp only [hm, Bool.not_false, Bool.or_true, if_true, Bool.false_and]
    exact (List.filter_eq_self.mpr fun _ _ => rfl).symm

/-- Suppression and any other choice of findings may change places. -/
theorem keepUnsuppressed_filter (content : Text) (fs : List Finding) (p : Finding → Bool) :
    keepUnsuppressed content (fs.filter p) = (keepUnsuppressed content fs).filter p := by
  simp only [keepUnsuppressed_eq_filter, List.filter_filter]
  exact List.filter_congr fun f _ => Bool.and_comm _ _

namespace Sweep

variable {rules : List Rule} {disabled : List String}

/-- What a rule says of a file. -/
abbrev outcome (file : SourceFile) (r : Rule) : Outcome := (r.info.id, r.detect file.path file.content)

/-- Findings of rules that are not in the list. -/
def keptFindings (disabled : List String) (fs : List Finding) : List Finding :=
  fs.filter fun f => f.ruleId ∉ disabled

/-- Diagnostics about rules that are not in the list. -/
def keptFaults (disabled : List String) (ds : List Diagnostic) : List Diagnostic :=
  ds.filter fun d => ∀ id ∈ disabled, d.source ≠ s!"rule:{id}"

theorem keptFindings_append (fs gs : List Finding) :
    keptFindings disabled (fs ++ gs) = keptFindings disabled fs ++ keptFindings disabled gs := List.filter_append fs gs

/-- The findings of a rule under its own name stay all, or go all. -/
theorem keptFindings_outcome {r : Rule} (h : r.ReportsOwn) (file : SourceFile) :
    keptFindings disabled (findingsOf (outcome file r)) =
      if r.info.id ∈ disabled then [] else findingsOf (outcome file r) := by
  cases hd : r.detect file.path file.content with
  | error message =>
    simp only [outcome, hd, findingsOf]
    exact (ite_self _).symm
  | ok fs =>
    have hown : ∀ f ∈ fs, f.ruleId = r.info.id := h _ _ fs hd
    simp only [outcome, hd, findingsOf]
    by_cases hr : r.info.id ∈ disabled
    · rw [if_pos hr]
      exact List.filter_eq_nil_iff.mpr fun f hf => by simp [hown f hf, hr]
    · rw [if_neg hr]
      exact List.filter_eq_self.mpr fun f hf => by simp [hown f hf, hr]

theorem findings_withoutRules (h : ∀ r ∈ rules, r.ReportsOwn) (file : SourceFile) :
    (withoutRules rules disabled).flatMap (fun r => findingsOf (outcome file r)) =
      keptFindings disabled (rules.flatMap fun r => findingsOf (outcome file r)) := by
  induction rules with
  | nil => rfl
  | cons r rules ih =>
    obtain ⟨hr, h⟩ := List.forall_mem_cons.mp h
    have ih := ih h
    unfold withoutRules at ih ⊢
    rw [List.flatMap_cons, keptFindings_append, keptFindings_outcome hr, ← ih]
    by_cases hd : r.info.id ∈ disabled <;> simp [hd]

/-- Two rules fault under one source only if they have one name. -/
theorem faultSource_injective {a b : String} (h : s!"rule:{a}" = s!"rule:{b}") : a = b :=
  (String.append_right_inj "rule:").mp h

/-- The diagnostic about a rule stays, or goes. -/
theorem keptFault_outcome (file : SourceFile) (r : Rule) :
    (fault? file.path (outcome file r)).filter (fun d => ∀ id ∈ disabled, d.source ≠ s!"rule:{id}") =
      if r.info.id ∈ disabled then none else fault? file.path (outcome file r) := by
  have hsource : (∀ id ∈ disabled, s!"rule:{r.info.id}" ≠ s!"rule:{id}") ↔ r.info.id ∉ disabled :=
    ⟨fun h hr => h _ hr rfl, fun h id hid e => h (faultSource_injective e ▸ hid)⟩
  cases hd : r.detect file.path file.content with
  | ok fs => simp [outcome, hd, fault?]
  | error message =>
    simp only [outcome, hd, fault?, Option.filter_some, hsource]
    by_cases hr : r.info.id ∈ disabled <;> simp [hr]

theorem faults_withoutRules (rules : List Rule) (file : SourceFile) :
    (withoutRules rules disabled).filterMap (fun r => fault? file.path (outcome file r)) =
      keptFaults disabled (rules.filterMap fun r => fault? file.path (outcome file r)) := by
  rw [keptFaults, List.filter_filterMap, withoutRules, List.filterMap_filter]
  refine congrArg (fun f => rules.filterMap f) (funext fun r => ?_)
  rw [keptFault_outcome]
  by_cases hr : r.info.id ∈ disabled <;> simp [hr]

theorem ofFile_withoutRules (h : ∀ r ∈ rules, r.ReportsOwn) (file : SourceFile) :
    ofFile (withoutRules rules disabled) file =
      ⟨keptFindings disabled (ofFile rules file).findings, keptFaults disabled (ofFile rules file).diagnostics⟩ := by
  unfold ofFile
  split
  · rfl
  · simp only [List.flatMap_map, List.filterMap_map, Function.comp_def]
    rw [findings_withoutRules h, faults_withoutRules, keptFindings, keepUnsuppressed_filter]
    rfl

/-- Leaving out rules that report under their own names leaves the findings and diagnostics of the others. -/
theorem ofFiles_withoutRules_of_reportsOwn (h : ∀ r ∈ rules, r.ReportsOwn) (files : List SourceFile) :
    ofFiles (withoutRules rules disabled) files =
      ⟨keptFindings disabled (ofFiles rules files).findings, keptFaults disabled
        (ofFiles rules files).diagnostics⟩ := by
  have hfile : ofFile (withoutRules rules disabled) = fun file =>
      ⟨keptFindings disabled (ofFile rules file).findings, keptFaults disabled (ofFile rules file).diagnostics⟩ :=
    funext (ofFile_withoutRules h)
  simp only [ofFiles, hfile, List.flatMap_map, keptFindings, keptFaults, List.filter_flatMap]

/-- **Disabled rules.** A sweep without some of the rules of the catalog is the sweep with all of them, less the
findings and diagnostics of those rules. -/
theorem ofFiles_withoutRules (tables : RuleTables) (disabled : List String) (files : List SourceFile) :
    (ofFiles (withoutRules (builtinRules tables) disabled) files).findings =
      (ofFiles (builtinRules tables) files).findings.filter (fun f => f.ruleId ∉ disabled) ∧
    (ofFiles (withoutRules (builtinRules tables) disabled) files).diagnostics =
      (ofFiles (builtinRules tables) files).diagnostics.filter
        (fun d => ∀ id ∈ disabled, d.source ≠ s!"rule:{id}") := by
  have hown : ∀ r ∈ builtinRules tables, r.ReportsOwn := by
    intro r hr
    obtain ⟨spots, hs⟩ := builtinRules_reportsSpots tables r hr
    exact hs.reportsOwn
  rw [ofFiles_withoutRules_of_reportsOwn hown]
  exact ⟨rfl, rfl⟩

end Sweep

end Checkup
