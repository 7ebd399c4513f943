import Checkup.Rule.Catalog

/-!
# What is the same for all rules

* `Rule.ReportsSpots`: the rule names spots and leaves the making of findings to its description. All rules of the
  catalog are of that kind (`builtinRules_reportsSpots`), so they never fail, and each of their findings has the name,
  severity and reference of its rule and the path of the file (`Rule.ReportsSpots.detect_eq`,
  `Rule.ReportsSpots.bears`).
-/

namespace Checkup

/-- Whether a finding is one that the rule with the description makes of some spot in the file. -/
structure RuleInfo.Bears (info : RuleInfo) (path : String) (f : Finding) : Prop where
  ruleId : f.ruleId = info.id
  severity : f.severity = info.severity
  referenceUrl : f.referenceUrl = some info.referenceUrl
  path : f.location.path = path

theorem RuleInfo.bears_finding (info : RuleInfo) (path : String) (s : Spot) : info.Bears path (info.finding path s) :=
  ⟨rfl, rfl, rfl, rfl⟩

namespace Rule

/-- Whether the findings of the rule are made of the given spots of a file that has its clues. -/
def ReportsSpots (r : Rule) (spots : String → Text → List Spot) : Prop := r = r.info.rule r.clues spots

variable {r : Rule} {spots : String → Text → List Spot} {path : String} {content : Text} {fs : List Finding}

/-- Such a rule gives a result on every file. -/
theorem ReportsSpots.detect_eq (h : r.ReportsSpots spots) (path : String) (content : Text) :
    r.detect path content =
      .ok (if r.hasClues content then (spots path content).map (r.info.finding path) else []) := by
  rw [h]
  unfold detect
  split <;> rfl

/-- Its findings bear its name, its severity and its reference, and the path of the file. -/
theorem ReportsSpots.bears (h : r.ReportsSpots spots) (hd : r.detect path content = .ok fs) {f : Finding}
    (hf : f ∈ fs) : r.info.Bears path f := by
  rw [h.detect_eq, Except.ok.injEq] at hd
  subst hd
  split at hf
  · obtain ⟨s, _, rfl⟩ := List.mem_map.mp hf
    exact r.info.bears_finding path s
  · cases hf

end Rule

/-- Every rule of the catalog names spots. -/
theorem builtinRules_reportsSpots (tables : RuleTables) :
    ∀ r ∈ builtinRules tables, ∃ spots, r.ReportsSpots spots := by
  unfold builtinRules
  simp only [List.forall_mem_cons]
  repeat' apply And.intro
  all_goals first | exact ⟨_, rfl⟩ | exact fun _ h => absurd h List.not_mem_nil

end Checkup
