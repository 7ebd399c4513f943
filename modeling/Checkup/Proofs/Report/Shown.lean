import Mathlib.Data.List.Forall2
import Checkup.Report.Format

/-!
# What reports show

What stands in the parts of a report, said by the values that it shows and not by what writes it. On a terminal, a part
shows pieces, some of them in a style (`Shows`).

* `Severity.Called`: what a severity is called in reports.
* `Terminal.IsHeader`, `Terminal.IsSummary`, `Terminal.IsPolicy`, `Terminal.IsTime`: the score, the counts, the policy
  and the time on a terminal.
* `Markdown.IsHeader`, `Markdown.IsSummary`: the score, the counts and the policy in Markdown.
* `PolicyOutcome.IsObject`, `SeverityCounts.IsObject`: the counts and the policy for other programs.

What writes such a part shows just that: `Terminal.header_shows` and the theorems with names like that.
-/

namespace Checkup

/-- What a severity is called: the name for other programs, the word in headings, its sign, and the word inside a
sentence. -/
inductive Severity.Called : Severity → (name label sign word : String) → Prop
  | critical : Called .critical "critical" "Critical" "🔴" "critical"
  | performance : Called .performance "performance" "Performance" "🟠" "performance"
  | bestPractice : Called .bestPractice "best-practice" "Best practice" "🔵" "best practice"
  | info : Called .info "info" "Info" "ℹ️" "info"

theorem Severity.called (s : Severity) : s.Called s.name s.label (Markdown.sign s) s.lowerLabel := by
  cases s <;> constructor

/-! ## Pieces on a terminal -/

/-- A piece of a line on a terminal: a text as it is, or in some style. -/
inductive Piece where
  | plain (t : String)
  | styled (t : String)

/-- What a terminal shows for a piece. A text in a style stands between the codes that begin and end the style, if the
terminal knows colors. -/
def Piece.IsShown (useColor : Bool) : Piece → String → Prop
  | plain t, shown => shown = t
  | styled t, shown =>
    if useColor then
      ∃ numbers : List Nat, shown = String.join (numbers.map fun n => "\x1b[" ++ toString n ++ "m") ++ t ++ "\x1b[0m"
    else shown = t

theorem Style.isShown_paint {useColor : Bool} (s : Style) (t : String) :
    (Piece.styled t).IsShown useColor (s.paint useColor t) := by
  cases useColor with
  | false => rfl
  | true => exact ⟨s.codes, rfl⟩

/-- Whether a text shows the pieces, one after the other. -/
def Shows (useColor : Bool) (pieces : List Piece) (text : String) : Prop :=
  ∃ parts, List.Forall₂ (Piece.IsShown useColor) pieces parts ∧ text = String.join parts

namespace Shows

variable {useColor : Bool} {pieces : List Piece} {text : String}

theorem nil : Shows useColor [] "" := ⟨[], .nil, rfl⟩

theorem plain (t : String) (h : Shows useColor pieces text) : Shows useColor (.plain t :: pieces) (t ++ text) := by
  obtain ⟨parts, hparts, rfl⟩ := h
  exact ⟨t :: parts, .cons rfl hparts, String.join_cons.symm⟩

theorem painted (s : Style) (t : String) (h : Shows useColor pieces text) :
    Shows useColor (.styled t :: pieces) (s.paint useColor t ++ text) := by
  obtain ⟨parts, hparts, rfl⟩ := h
  exact ⟨s.paint useColor t :: parts, .cons (s.isShown_paint t) hparts, String.join_cons.symm⟩

theorem append {pieces' : List Piece} {text' : String} (h : Shows useColor pieces text)
    (h' : Shows useColor pieces' text') : Shows useColor (pieces ++ pieces') (text ++ text') := by
  obtain ⟨parts, hparts, rfl⟩ := h
  obtain ⟨parts', hparts', rfl⟩ := h'
  exact ⟨parts ++ parts', List.rel_append hparts hparts', by simp⟩

/-- A line of a painted text and a line feed. -/
theorem painted_line (s : Style) (t : String) :
    Shows useColor [.styled t, .plain "\n"] (s.paint useColor t ++ "\n") :=
  .painted s t (.plain "\n" .nil)

/-- Texts in styles with the same text between any two. -/
theorem intercalate (sep : String) {texts parts : List String}
    (h : List.Forall₂ (fun t shown => (Piece.styled t).IsShown useColor shown) texts parts) :
    Shows useColor ((texts.map Piece.styled).intersperse (.plain sep)) (sep.intercalate parts) := by
  induction h with
  | nil => exact nil
  | @cons t part texts parts hpart h ih =>
    cases h with
    | nil => exact ⟨[part], .cons hpart .nil, by simp⟩
    | cons hnext h =>
      obtain ⟨shown, hshown, htext⟩ := ih
      refine ⟨part :: sep :: shown, .cons hpart (.cons rfl hshown), ?_⟩
      rw [String.intercalate_cons_cons, htext]
      simp [String.append_assoc]

end Shows

/-! ## The score, the counts and the policy on a terminal -/

/-- The word for a score. -/
def scoreWord (score : Nat) : String :=
  if 75 ≤ score ∧ score ≤ 100 then "Great" else if 50 ≤ score ∧ score < 75 then "Needs work" else "Critical"

theorem ScanResult.rating_eq (r : ScanResult) : r.rating = scoreWord r.score := by
  simp [rating, scoreWord]

/-- How many findings there are of each severity, in words, the worst first. Nothing is said of a severity of which
there is none. -/
def SeverityCounts.words (c : SeverityCounts) : List String :=
  [(c.critical, "critical"), (c.performance, "performance"), (c.bestPractice, "best practice"),
    (c.info, "info")].filterMap fun (n, word) => if n = 0 then none else some s!"{n} {word}"

/-- The name of the target of a policy, and how many findings, issues of dependencies and advisories have its
severity. -/
def PolicyOutcome.IsTold (p : PolicyOutcome) (text : String) : Prop :=
  ∃ name label sign word, p.target.Called name label sign word ∧ text =
    s!"fail-on {name}: {p.findingMatches + p.dependencyMatches + p.vulnerabilityMatches} matching (" ++
      s!"{p.findingMatches} findings, {p.dependencyMatches} dependency issues, " ++
      s!"{p.vulnerabilityMatches} vulnerabilities)"

namespace Terminal

variable (useColor : Bool)

/-- The title and the score. -/
def IsHeader (score : Nat) : String → Prop :=
  Shows useColor [.plain "\n", .styled "React Health", .plain "\n", .styled (String.ofList (List.replicate 38 '─')),
    .plain "\nScore: ", .styled s!"{score}/100", .plain "  ", .styled (scoreWord score), .plain "\n\n"]

/-- How many findings there are, and how many of each severity. -/
def IsSummary (c : SeverityCounts) : String → Prop :=
  Shows useColor <|
    [.styled "FINDINGS", .plain s!" ({c.critical + c.performance + c.bestPractice + c.info} total)\n"] ++
    (if c.words = [] then [] else
      [.plain "  "] ++ (c.words.map Piece.styled).intersperse (.plain " | ") ++ [.plain "\n"]) ++ [.plain "\n"]

/-- The time that the scan took. -/
def IsTime (seconds : String) : String → Prop := Shows useColor [.styled s!"Done in {seconds}", .plain "\n"]

/-- What the policy says, and nothing without a policy. -/
def IsPolicy (policy : Option PolicyOutcome) (text : String) : Prop :=
  match policy with
  | none => text = ""
  | some p => ∃ told, p.IsTold told ∧ Shows useColor [.styled told, .plain "\n"] text

variable {useColor}

theorem header_shows (r : ScanResult) : IsHeader useColor r.score (header useColor r) := by
  have hheader : header useColor r = "\n" ++ (Style.bold.paint useColor "React Health" ++ ("\n" ++
      (Style.dim.paint useColor (String.ofList (List.replicate 38 '─')) ++ ("\nScore: " ++
      ((scoreStyle r.score).paint useColor s!"{r.score}/100" ++ ("  " ++
      (Style.bold.paint useColor (scoreWord r.score) ++ ("\n\n" ++ "")))))))) := by
    rw [header, r.rating_eq]
    simp only [String.append_assoc, String.append_empty]
    rfl
  rw [hheader]
  exact .plain _ (.painted _ _ (.plain _ (.painted _ _ (.plain _ (.painted _ _ (.plain _ (.painted _ _
    (.plain _ .nil))))))))

/-- The words for the counts are those for the severities of which there is something. -/
theorem words_eq (c : SeverityCounts) :
    c.words = (Severity.all.filter fun s => 0 < c.get s).map fun s => s!"{c.get s} {s.lowerLabel}" := by
  have hword (s : Severity) : (if c.get s = 0 then none else some s!"{c.get s} {s.lowerLabel}") =
      if 0 < c.get s then some s!"{c.get s} {s.lowerLabel}" else none := by
    by_cases h : c.get s = 0 <;> simp [h, Nat.pos_iff_ne_zero]
  have hwords : c.words =
      Severity.all.filterMap fun s => if c.get s = 0 then none else some s!"{c.get s} {s.lowerLabel}" := rfl
  rw [hwords]
  simp only [hword]
  generalize Severity.all = ss
  induction ss with
  | nil => rfl
  | cons s ss ih =>
    rw [List.filterMap_cons, List.filter_cons, ih]
    by_cases h : 0 < c.get s <;> simp [h]

theorem summary_shows (r : ScanResult) : IsSummary useColor r.counts (summary useColor r) := by
  let present := Severity.all.filter fun s => 0 < r.counts.get s
  let parts := present.map fun s => s.style.paint useColor s!"{r.counts.get s} {s.lowerLabel}"
  have hparts : List.Forall₂ (fun t shown => (Piece.styled t).IsShown useColor shown) r.counts.words parts := by
    rw [words_eq, List.forall₂_map_left_iff, List.forall₂_map_right_iff, List.forall₂_same]
    exact fun s _ => Style.isShown_paint _ _
  have hnone : r.counts.words = [] ↔ parts.isEmpty = true := by
    rw [words_eq, List.isEmpty_iff, List.map_eq_nil_iff, List.map_eq_nil_iff]
  let line := if parts.isEmpty then "" else "  " ++ " | ".intercalate parts ++ "\n"
  have hsummary : summary useColor r = Style.bold.paint useColor "FINDINGS" ++
      (s!" ({r.counts.total} total)\n" ++ "") ++
      line ++ ("\n" ++ "") := by
    have hwritten : summary useColor r =
        Style.bold.paint useColor "FINDINGS" ++ " (" ++ toString r.counts.total ++ " total)\n" ++ line ++ "\n" := rfl
    rw [hwritten]
    simp only [String.append_assoc, String.append_empty]
    rfl
  rw [hsummary]
  refine ((Shows.painted _ _ (.plain _ .nil)).append ?_).append (.plain _ .nil)
  by_cases h : parts.isEmpty
  · rw [show line = "" from if_pos h, if_pos (hnone.mpr h)]
    exact .nil
  · rw [show line = "  " ++ "" ++ " | ".intercalate parts ++ ("\n" ++ "") from if_neg h, if_neg (mt hnone.mp h)]
    exact ((Shows.plain _ .nil).append (.intercalate _ hparts)).append (.plain _ .nil)

theorem policy_shows (policy : Option PolicyOutcome) :
    IsPolicy useColor policy ((policy.map (Terminal.policy useColor)).getD "") := by
  cases policy with
  | none => rfl
  | some p =>
    let told := s!"fail-on {p.target.name}: {p.total} matching ({p.findingMatches} findings, " ++
      s!"{p.dependencyMatches} dependency issues, {p.vulnerabilityMatches} vulnerabilities)"
    refine ⟨told, ⟨_, _, _, _, p.target.called, ?_⟩, .painted_line _ told⟩
    simp only [told, PolicyOutcome.total, String.append_assoc]

theorem footer_shows (useColor : Bool) (v : ReportView) :
    ∃ facts time policy, footer useColor v = facts ++ time ++ policy ∧
    IsTime useColor (secondsText v.result.elapsedMs) time ∧ IsPolicy useColor v.policy policy := by
  let lead := s!"{Style.dim.paint useColor (facts v.result.stats)}\n" ++
    if v.result.diagnostics.length = 0 then "" else (Style.colored .yellow).paint useColor
      s!"{v.result.diagnostics.length} checks degraded (run with --log-level debug for details)" ++ "\n"
  refine ⟨lead, _, _, ?_, .painted_line Style.dim s!"Done in {secondsText v.result.elapsedMs}", policy_shows v.policy⟩
  simp only [lead, ← String.append_assoc]
  rfl

end Terminal

/-! ## The score, the counts and the policy in Markdown -/

namespace Markdown

/-- The title, the score and the time. -/
def IsHeader (time : String) (score : Nat) (text : String) : Prop :=
  text = s!"# React Health Report\n\n**Score: {score}/100** ({scoreWord score})\n\nGenerated: {time}\n"

/-- A line of a table with two columns. -/
def pairLine (a b : String) : String := s!"| {a} | {b} |\n"

/-- The line of the policy, and nothing without a policy. -/
def IsPolicy (policy : Option PolicyOutcome) (text : String) : Prop :=
  match policy with
  | none => text = ""
  | some p => ∃ name label sign word, p.target.Called name label sign word ∧
    let total := p.findingMatches + p.dependencyMatches + p.vulnerabilityMatches
    let verdict := if total = 0 then "✅ passed" else "❌ failed"
    text = pairLine s!"Fail-on \x60{name}\x60" s!"{verdict} ({total} matching)"

/-- The counts, what else there is, and the policy. -/
def IsSummary (c : SeverityCounts) (seconds : String) (policy : Option PolicyOutcome) (text : String) : Prop :=
  ∃ (issues advisories : Nat) (policyLine : String), IsPolicy policy policyLine ∧
    text = String.join ["## Summary\n\n", "| Severity | Findings |\n|----------|----------|\n",
      pairLine "🔴 Critical" (toString c.critical), pairLine "🟠 Performance" (toString c.performance),
      pairLine "🔵 Best practice" (toString c.bestPractice), pairLine "ℹ️ Info" (toString c.info),
      pairLine "**Total**" s!"**{c.critical + c.performance + c.bestPractice + c.info}**", "\n",
      "| Metric | Value |\n|--------|-------|\n", pairLine "Dependency issues" (toString issues),
      pairLine "Vulnerabilities" (toString advisories), pairLine "Scan time" seconds, policyLine]

theorem row_pair (a b : String) : row [a, b] = pairLine a b := by
  simp [row, pairLine, String.append_assoc, toString]

theorem header_shows (time : String) (r : ScanResult) : IsHeader time r.score (header time r) := by
  rw [IsHeader, ← r.rating_eq]
  rfl

theorem policy_shows (policy : Option PolicyOutcome) : IsPolicy policy ((policy.map policyRow).getD "") := by
  cases policy with
  | none => rfl
  | some p =>
    refine ⟨_, _, _, _, p.target.called, ?_⟩
    have hverdict : (if p.shouldFail then "❌ failed" else "✅ passed") =
        if p.total = 0 then "✅ passed" else "❌ failed" := by
      by_cases h : p.total = 0 <;> simp [PolicyOutcome.shouldFail, h, Nat.pos_iff_ne_zero]
    have hname : s!"Fail-on {code p.target.name}" = s!"Fail-on \x60{p.target.name}\x60" := by
      simp [code, toString, ← String.toList_inj]
    rw [Option.map_some, Option.getD_some, policyRow, row_pair, hverdict, hname]
    rfl

theorem summary_shows (v : ReportView) :
    IsSummary v.result.counts (secondsText v.result.elapsedMs) v.policy (summary v) := by
  refine ⟨v.result.dependencyIssues.length, v.result.security.total, _, policy_shows v.policy, ?_⟩
  have hcounts : tableHead ["Severity", "Findings"] = "| Severity | Findings |\n|----------|----------|\n" := by
    decide +kernel
  have hmetrics : tableHead ["Metric", "Value"] = "| Metric | Value |\n|--------|-------|\n" := by decide +kernel
  have hsigned : Severity.all.map (fun s => row [signed s, toString (v.result.counts.get s)]) =
      [pairLine "🔴 Critical" (toString v.result.counts.critical),
        pairLine "🟠 Performance" (toString v.result.counts.performance),
        pairLine "🔵 Best practice" (toString v.result.counts.bestPractice),
        pairLine "ℹ️ Info" (toString v.result.counts.info)] := by
    simp only [Severity.all, List.map_cons, List.map_nil, row_pair]
    rfl
  unfold summary
  dsimp only
  rw [hcounts, hmetrics, hsigned]
  simp only [row_pair, String.join_cons, String.join_nil, String.append_assoc, String.append_empty]
  rfl

end Markdown

/-! ## The counts and the policy for other programs -/

/-- The counts as an object. -/
def SeverityCounts.IsObject (c : SeverityCounts) (j : Json) : Prop :=
  j = .object [("critical", .nat c.critical), ("performance", .nat c.performance),
    ("best_practice", .nat c.bestPractice), ("info", .nat c.info)]

/-- What a policy says, as an object. -/
def PolicyOutcome.IsObject (p : PolicyOutcome) (j : Json) : Prop :=
  ∃ name label sign word breakdown, p.target.Called name label sign word ∧ p.breakdown.IsObject breakdown ∧
    j = .object [("target", .string name),
      ("should_fail", .bool (0 < p.findingMatches + p.dependencyMatches + p.vulnerabilityMatches)),
      ("finding_matches", .nat p.findingMatches), ("dependency_matches", .nat p.dependencyMatches),
      ("vulnerability_matches", .nat p.vulnerabilityMatches), ("breakdown", breakdown)]

theorem SeverityCounts.toJson_isObject (c : SeverityCounts) : c.IsObject c.toJson := rfl

theorem PolicyOutcome.toJson_isObject (p : PolicyOutcome) : p.IsObject p.toJson :=
  ⟨_, _, _, _, _, p.target.called, p.breakdown.toJson_isObject, rfl⟩

end Checkup
