import Checkup.Proofs.Json.Pretty
import Checkup.Proofs.Report.Groups
import Checkup.Proofs.Report.ShownFinding
import Checkup.Proofs.Score

/-!
# What reports list

The reports for readers write a section for each group of findings: a heading with the size of the group, rows, and how
many findings have none. `ReportView.sections` says what these sections are, `Terminal.section` and `Markdown.section`
how they are written (`terminalReport_eq`, `markdownReport_eq`). The report for other programs holds the findings of the
view as they are (`parse_dataReport`, `lookup_findings`).

* `Terminal.IsSection`, `Markdown.IsSection`: what a section shows.
* `ReportFormat.Lists`: what a report lists, in each format.
* `ReportView.sections_rows`: if all is shown, the rows are the findings of the view with the worst first.
* `ReportView.reports_agree`: the three reports list the same.
-/

namespace Checkup

open Json (Tree)

/-- The part of a report about findings of one severity. -/
structure Section where
  severity : Severity
  /-- how many findings there are -/
  size : Nat
  /-- the findings that have a row -/
  rows : List Finding
  /-- how many findings are said to have none -/
  more : Nat

namespace ReportView

variable (v : ReportView)

/-- The sections of the reports for readers. -/
def sections : List Section := v.groups.map fun g => ⟨g.severity, g.findings.length, v.shown g, v.hidden g⟩

/-- If all is shown, each finding that the view lists has a row, with the worst first. -/
theorem sections_rows (h : v.showAll = true) : v.sections.flatMap Section.rows = sortBySeverity v.findings := by
  rw [sections, List.flatMap_map, ← groups_flatMap]
  exact List.flatMap_congr fun g _ => if_pos h

theorem sections_more (h : v.showAll = true) : ∀ s ∈ v.sections, s.more = 0 := by
  intro s hs
  obtain ⟨g, _, rfl⟩ := List.mem_map.mp hs
  simp [hidden, shown, h]

/-- A section is about all findings of its severity that the view lists: it shows the first of them and says how many
follow. -/
theorem sections_complete : ∀ s ∈ v.sections,
    s.rows <+: ofSeverity s.severity v.findings ∧ s.size = (ofSeverity s.severity v.findings).length ∧
      s.rows.length + s.more = s.size := by
  intro s hs
  obtain ⟨g, hg, rfl⟩ := List.mem_map.mp hs
  obtain ⟨hfindings, _⟩ := v.mem_groups hg
  have hshown : v.shown g <+: g.findings := by
    unfold shown
    split
    · exact List.prefix_rfl
    · exact List.take_prefix _ _
  refine ⟨hfindings ▸ hshown, congrArg List.length hfindings, ?_⟩
  exact Nat.add_sub_cancel' hshown.length_le

end ReportView

/-! ## The reports for readers -/

/-- A section as it is written for a terminal. -/
def Terminal.section (useColor : Bool) (s : Section) : String :=
  let title := s.severity.style.strong.paint useColor s!"{s.severity.label} ({s.size})"
  let rows := String.join (s.rows.map (finding useColor))
  let more := if s.more = 0 then ""
    else "  " ++ Style.dim.paint useColor s!"...and {s.more} more (use --all)" ++ "\n"
  s!"{title}\n{rows}{more}\n"

/-- What stands in place of sections for a terminal. -/
def Terminal.noSections (useColor : Bool) (v : ReportView) : String :=
  if v.result.findings.isEmpty then (Style.colored .green).paint useColor "No issues found." ++ "\n\n" else ""

/-- A section as it is written in Markdown. -/
def Markdown.section (s : Section) : String :=
  let more := if s.more = 0 then "" else s!"\n*...and {s.more} more {s.severity.lowerLabel} findings*\n"
  s!"### {signed s.severity} ({s.size})\n\n" ++ tableHead ["Location", "Rule", "Message"] ++
    String.join (s.rows.map findingRow) ++ more ++ "\n"

/-- What stands in place of sections in Markdown. -/
def Markdown.noSections (v : ReportView) : String := if v.groups.isEmpty then "✅ No issues found.\n" else ""

theorem Markdown.section_eq (s : Section) : Markdown.section s =
    s!"### {sign s.severity} {s.severity.label} ({s.size})\n\n" ++
      "| Location | Rule | Message |\n|----------|------|---------|\n" ++ String.join (s.rows.map findingRow) ++
      (if s.more = 0 then "" else s!"\n*...and {s.more} more {s.severity.lowerLabel} findings*\n") ++ "\n" := by
  have hhead : tableHead ["Location", "Rule", "Message"] =
      "| Location | Rule | Message |\n|----------|------|---------|\n" := by decide +kernel
  have htitle : s!"### {signed s.severity} ({s.size})\n\n" =
      s!"### {sign s.severity} {s.severity.label} ({s.size})\n\n" := by
    simp [signed, toString, String.append_assoc]
  rw [Markdown.section, hhead, htitle]

theorem Terminal.findings_eq (useColor : Bool) (v : ReportView) :
    findings useColor v = noSections useColor v ++ String.join (v.sections.map (Terminal.section useColor)) := by
  have hgroups : v.sections.map (Terminal.section useColor) = v.groups.map (group useColor v) := by
    rw [ReportView.sections, List.map_map]
    rfl
  rw [hgroups, findings, noSections]
  split
  · rename_i hnone
    have hno : v.groups = [] := List.eq_nil_iff_forall_not_mem.mpr fun g hg => by
      obtain ⟨hfindings, hne⟩ := v.mem_groups hg
      rw [hfindings, ReportView.findings, List.isEmpty_iff.mp hnone] at hne
      exact hne rfl
    simp only [hno, List.map_nil, String.join_nil, String.append_empty]
  · rw [String.empty_append]

theorem Markdown.findings_eq (v : ReportView) :
    findings v = "## Findings\n\n" ++ (noSections v ++ String.join (v.sections.map Markdown.section)) := by
  have hgroups : v.sections.map Markdown.section = v.groups.map (group v) := by
    rw [ReportView.sections, List.map_map]
    rfl
  rw [hgroups, findings, noSections]
  split
  · rename_i hnone
    simp only [List.isEmpty_iff.mp hnone, List.map_nil, String.join_nil, String.append_empty]
  · rw [String.empty_append]

theorem terminalReport_eq (useColor : Bool) (v : ReportView) :
    terminalReport useColor v = String.join [Terminal.header useColor v.result, Terminal.summary useColor v.result,
      Terminal.noSections useColor v ++ String.join (v.sections.map (Terminal.section useColor)),
      Terminal.dependencies useColor v.result, Terminal.security useColor v.result.security,
      Terminal.footer useColor v] := by
  rw [terminalReport, Terminal.findings_eq]

theorem markdownReport_eq (time : String) (v : ReportView) :
    markdownReport time v = String.join [Markdown.header time v.result, "\n", Markdown.summary v, "\n",
      "## Findings\n\n" ++ (Markdown.noSections v ++ String.join (v.sections.map Markdown.section)), "\n",
      Markdown.dependencies v.result, Markdown.security v.result.security, Markdown.project v.result.stats, "\n",
      Markdown.footer] := by
  rw [markdownReport, Markdown.findings_eq]

/-! ## The report for other programs -/

theorem lookup_findings (v : ReportView) :
    (reportMembers v).lookup "findings" = some (.array (v.findings.map Finding.toJson)) := by
  simp [reportMembers, List.lookup_cons]

theorem parse_dataReport (v : ReportView) :
    Tree.parse (dataReport v).toList = some (Tree.ofJson (.object (reportMembers v))) := by
  rw [dataReport, String.toList_ofList, Json.parse_pretty]

/-! ## What is in the reports -/

/-- A section on a terminal: a heading with its size, its rows, and how many findings have none. -/
def Terminal.IsSection (useColor : Bool) (s : Section) (text : String) : Prop :=
  ∃ name label sign word title rows more, s.severity.Called name label sign word ∧
    Shows useColor [.styled s!"{label} ({s.size})", .plain "\n"] title ∧
    List.Forall₂ (IsRow useColor) s.rows rows ∧
    Shows useColor (if s.more = 0 then [] else
      [.plain "  ", .styled s!"...and {s.more} more (use --all)", .plain "\n"]) more ∧
    text = title ++ String.join rows ++ more ++ "\n"

/-- What stands in front of the sections on a terminal: that there are no findings, if there are none. -/
def Terminal.IsLead (useColor : Bool) (findings : List Finding) : String → Prop :=
  Shows useColor (if findings = [] then [.styled "No issues found.", .plain "\n\n"] else [])

/-- A section in Markdown: a heading with its size, a table of its rows, and how many findings have none. -/
def Markdown.IsSection (s : Section) (text : String) : Prop :=
  ∃ name label sign word rows, s.severity.Called name label sign word ∧ List.Forall₂ IsRow s.rows rows ∧
    text = s!"### {sign} {label} ({s.size})\n\n" ++
      "| Location | Rule | Message |\n|----------|------|---------|\n" ++ String.join rows ++
      (if s.more = 0 then "" else s!"\n*...and {s.more} more {word} findings*\n") ++ "\n"

/-- What a report in the format lists. A report for readers has the sections of the view, between the score and the
counts in front and other things behind; one for other programs has the findings of the view. -/
def ReportFormat.Lists (v : ReportView) (useColor : Bool) (time : String) : ReportFormat → String → Prop
  | .text, report => ∃ header summary lead sections, Terminal.IsHeader useColor v.result.score header ∧
      Terminal.IsSummary useColor v.result.counts summary ∧ Terminal.IsLead useColor v.result.findings lead ∧
      List.Forall₂ (Terminal.IsSection useColor) v.sections sections ∧
      report = String.join [header, summary, lead ++ String.join sections, Terminal.dependencies useColor v.result,
        Terminal.security useColor v.result.security, Terminal.footer useColor v]
  | .json, report => ∃ members items, Tree.parse report.toList = some (Tree.ofJson (.object members)) ∧
      members.lookup "findings" = some (.array items) ∧ List.Forall₂ Finding.IsObject v.findings items
  | .markdown, report => ∃ header summary sections, Markdown.IsHeader time v.result.score header ∧
      Markdown.IsSummary v.result.counts (secondsText v.result.elapsedMs) v.policy summary ∧
      List.Forall₂ Markdown.IsSection v.sections sections ∧
      report = String.join [header, "\n", summary, "\n",
        "## Findings\n\n" ++ ((if v.sections = [] then "✅ No issues found.\n" else "") ++ String.join sections), "\n",
        Markdown.dependencies v.result, Markdown.security v.result.security, Markdown.project v.result.stats, "\n",
        Markdown.footer]

theorem Terminal.section_isSection (useColor : Bool) (s : Section) :
    IsSection useColor s (Terminal.section useColor s) := by
  let more := if s.more = 0 then "" else "  " ++ Style.dim.paint useColor s!"...and {s.more} more (use --all)" ++ "\n"
  refine ⟨_, _, _, _, _, s.rows.map (finding useColor), more, s.severity.called,
    .painted_line s.severity.style.strong _, ?_, ?_, rfl⟩
  · exact List.forall₂_map_right_iff.mpr (List.forall₂_same.mpr fun f _ => finding_isRow useColor f)
  · by_cases h : s.more = 0
    · rw [if_pos h, show more = "" from if_pos h]
      exact .nil
    · rw [if_neg h, show more = _ from if_neg h, String.append_assoc]
      exact .plain _ (.painted_line _ _)

theorem Terminal.noSections_isLead (useColor : Bool) (v : ReportView) :
    IsLead useColor v.result.findings (noSections useColor v) := by
  unfold IsLead noSections
  by_cases h : v.result.findings = []
  · rw [if_pos h, if_pos (by rw [h]; rfl)]
    exact .painted _ _ (.plain "\n\n" .nil)
  · rw [if_neg h, if_neg (by simpa using h)]
    exact .nil

theorem Markdown.section_isSection (s : Section) : IsSection s (Markdown.section s) :=
  ⟨_, _, _, _, s.rows.map findingRow, s.severity.called,
    List.forall₂_map_right_iff.mpr (List.forall₂_same.mpr fun f _ => findingRow_isRow f), Markdown.section_eq s⟩

theorem Markdown.noSections_eq (v : ReportView) :
    noSections v = if v.sections = [] then "✅ No issues found.\n" else "" := by
  unfold noSections ReportView.sections
  simp only [List.isEmpty_iff, List.map_eq_nil_iff]

/-- A report lists the sections or the findings of the view. -/
theorem ReportView.write_lists (v : ReportView) (format : ReportFormat) (useColor : Bool) (time : String) :
    format.Lists v useColor time (v.write format useColor time) := by
  cases format with
  | text =>
    refine ⟨_, _, _, _, Terminal.header_shows v.result, Terminal.summary_shows v.result,
      Terminal.noSections_isLead useColor v, ?_, terminalReport_eq useColor v⟩
    exact List.forall₂_map_right_iff.mpr (List.forall₂_same.mpr fun s _ => Terminal.section_isSection useColor s)
  | json =>
    refine ⟨reportMembers v, _, parse_dataReport v, lookup_findings v, ?_⟩
    exact List.forall₂_map_right_iff.mpr (List.forall₂_same.mpr fun f _ => f.toJson_isObject)
  | markdown =>
    refine ⟨_, _, v.sections.map Markdown.section, Markdown.header_shows time v.result,
      Markdown.summary_shows v, ?_, ?_⟩
    · exact List.forall₂_map_right_iff.mpr (List.forall₂_same.mpr fun s _ => Markdown.section_isSection s)
    · rw [← Markdown.noSections_eq]
      exact markdownReport_eq time v

/-! ## All reports -/

namespace ReportView

/-- The findings of a result stand with the worst first, and so do those that a view of it lists. -/
theorem worstFirst_findings {v : ReportView} {i : ScanInputs} {elapsedMs : Nat} (h : v.result = i.result elapsedMs) :
    WorstFirst v.findings := by
  rw [findings, h]
  exact List.Pairwise.filter _ sortBySeverity_worst_first

/-- **Reports list the same findings.** One after the other, the groups of a view are the listed findings, sorted by
severity; each group holds findings of one severity, and the groups of worse ones come first. The reports for readers
show a section for each group, in which the rows and the number of findings without one add up to the size of the
group; the report for other programs has the listed findings. If all findings of a scan are shown, the rows are these
findings in their order. -/
theorem reports_agree (v : ReportView) (useColor : Bool) (time : String) :
    (v.groups.flatMap FindingGroup.findings = sortBySeverity v.findings ∧
      (∀ g ∈ v.groups, g.findings ≠ [] ∧ ∀ f ∈ g.findings, f.severity = g.severity) ∧
      v.groups.Pairwise fun g g' => g.severity.rank < g'.severity.rank) ∧
    (∀ format : ReportFormat, format.Lists v useColor time (v.write format useColor time)) ∧
    v.sections.map Section.severity = v.groups.map FindingGroup.severity ∧
    (∀ s ∈ v.sections, s.rows <+: ofSeverity s.severity v.findings ∧
      s.size = (ofSeverity s.severity v.findings).length ∧ s.rows.length + s.more = s.size) ∧
    (∀ (i : ScanInputs) (elapsedMs : Nat), v.result = i.result elapsedMs → v.showAll = true →
      v.sections.flatMap Section.rows = v.findings ∧ ∀ s ∈ v.sections, s.more = 0) := by
  have honeSeverity : ∀ g ∈ v.groups, g.findings ≠ [] ∧ ∀ f ∈ g.findings, f.severity = g.severity := by
    intro g hg
    obtain ⟨hfindings, hne⟩ := v.mem_groups hg
    exact ⟨hne, fun f hf => (mem_ofSeverity.mp (hfindings ▸ hf)).2⟩
  have hsections : v.sections.map Section.severity = v.groups.map FindingGroup.severity := by
    rw [sections, List.map_map]
    rfl
  refine ⟨⟨v.groups_flatMap, honeSeverity, v.groups_strict⟩, fun format => v.write_lists format useColor time,
    hsections, v.sections_complete, fun i elapsedMs hresult hall => ⟨?_, v.sections_more hall⟩⟩
  rw [v.sections_rows hall, (worstFirst_findings hresult).sortBySeverity_eq]

/-- An unstable key that was found before a missing option, and a hint that is not listed. -/
theorem reports_agree_pair :
    let key : Finding := ⟨.performance, "array-index-key", "Index as key", none, .file "a.tsx", none⟩
    let hint : Finding := ⟨.info, "no-console", "Console", none, .file "b.ts", none⟩
    let strict : Finding := ⟨.bestPractice, "typescript-strict", "Not strict", none, .file "tsconfig.json", none⟩
    let i := ScanInputs.sample [strict, hint] [key] [] []
    let v : ReportView := ⟨i.result 5, none, [.bestPractice, .performance], true⟩
    v.sections.flatMap Section.rows = v.findings ∧ v.findings = [key, strict] := by
  intro key hint strict i v
  have hsorted : i.findings = [key, strict, hint] := (flatMap_ofSeverity _).symm.trans (by decide +kernel)
  have hlisted : v.findings = [key, strict, hint].filter fun f => v.lists f.severity := congrArg (List.filter _) hsorted
  exact ⟨((reports_agree v false "").2.2.2.2 i 5 rfl rfl).1, hlisted.trans (by decide +kernel)⟩

end ReportView

end Checkup
