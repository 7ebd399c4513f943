import Checkup.Report.View

/-!
# Reports in Markdown

`markdownReport` writes a view as Markdown, with a table for each kind of thing that was found.

* `Markdown.cell`: a text in a cell of a table, where bars and line feeds cannot stand.
* `Markdown.row`, `Markdown.tableHead`: the lines of a table.
-/

namespace Checkup.Markdown

/-- A text in a cell of a table: a bar gets a backslash, a line feed becomes a blank. -/
def cell (t : String) : String :=
  String.ofList (Text.expand (fun c => if c = '|' then ['\\', '|'] else if c = '\n' then [' '] else [c]) t.toList)

/-- A row of a table. -/
def row (cells : List String) : String := "| " ++ " | ".intercalate cells ++ " |\n"

/-- The first two lines of a table with the given columns. -/
def tableHead (columns : List String) : String :=
  let rules := columns.map fun c => String.ofList (List.replicate (c.length + 2) '-')
  row columns ++ "|" ++ "|".intercalate rules ++ "|\n"

/-- A text in the type of code. -/
def code (t : String) : String :=
  let tick := String.singleton '\x60'
  s!"{tick}{t}{tick}"

/-- A link. -/
def link (text url : String) : String := s!"[{text}]({url})"

/-- The sign of a severity. -/
def sign : Severity → String
  | .critical => "🔴"
  | .performance => "🟠"
  | .bestPractice => "🔵"
  | .info => "ℹ️"

/-- The severity with its sign. -/
def signed (s : Severity) : String := s!"{sign s} {s.label}"

/-- The title, the score and the time. -/
def header (time : String) (r : ScanResult) : String :=
  s!"# React Health Report\n\n**Score: {r.score}/100** ({r.rating})\n\nGenerated: {time}\n"

/-- What the policy says. -/
def policyRow (p : PolicyOutcome) : String :=
  let verdict := if p.shouldFail then "❌ failed" else "✅ passed"
  row [s!"Fail-on {code p.target.name}", s!"{verdict} ({p.total} matching)"]

/-- The counts and totals. -/
def summary (v : ReportView) : String :=
  let r := v.result
  "## Summary\n\n" ++ tableHead ["Severity", "Findings"] ++
    String.join (Severity.all.map fun s => row [signed s, toString (r.counts.get s)]) ++
    row ["**Total**", s!"**{r.counts.total}**"] ++ "\n" ++ tableHead ["Metric", "Value"] ++
    row ["Dependency issues", toString r.dependencyIssues.length] ++
    row ["Vulnerabilities", toString r.security.total] ++ row ["Scan time", secondsText r.elapsedMs] ++
    ((v.policy.map policyRow).getD "")

/-- A finding. -/
def findingRow (f : Finding) : String :=
  let rule := match f.referenceUrl with
    | some url => link (code f.ruleId) url
    | none => code f.ruleId
  let help := match f.help with
    | some text => s!"<br>💡 {cell text}"
    | none => ""
  row [code f.location.text, rule, cell f.message ++ help]

/-- A group of findings. -/
def group (v : ReportView) (g : FindingGroup) : String :=
  let more := if v.hidden g = 0 then ""
    else s!"\n*...and {v.hidden g} more {g.severity.lowerLabel} findings*\n"
  s!"### {signed g.severity} ({g.findings.length})\n\n" ++ tableHead ["Location", "Rule", "Message"] ++
    String.join ((v.shown g).map findingRow) ++ more ++ "\n"

/-- The findings. -/
def findings (v : ReportView) : String :=
  "## Findings\n\n" ++
    if v.groups.isEmpty then "✅ No issues found.\n" else String.join (v.groups.map (group v))

/-- A dependency issue. -/
def issueRow (i : DependencyIssue) : String :=
  row [i.severity.label, i.kind.label, (i.package.map code).getD "", cell i.message]

/-- The dependency issues, if there are any. -/
def dependencies (r : ScanResult) : String :=
  if r.dependencyIssues.isEmpty then ""
  else
    "## Dependencies\n\n" ++ tableHead ["Severity", "Kind", "Package", "Issue"] ++
      String.join (r.dependencyIssues.map issueRow) ++ "\n"

/-- An advisory. -/
def vulnerabilityRow (v : Vulnerability) : String :=
  let title := if v.referenceUrl.isEmpty then cell v.title else link (cell v.title) v.referenceUrl
  row [v.severity.name, code v.package, title, cell v.vulnerableVersions]

/-- The advisories, if there are any. -/
def security (s : SecuritySummary) : String :=
  if s.total = 0 then ""
  else
    s!"## Security\n\n{s.critical} critical, {s.high} high, {s.moderate} moderate, {s.low} low\n\n" ++
      tableHead ["Severity", "Package", "Advisory", "Versions"] ++
      String.join (s.vulnerabilities.map vulnerabilityRow) ++ "\n"

/-- The facts about the project. -/
def project (s : ProjectStats) : String :=
  "## Project\n\n" ++ tableHead ["Metric", "Value"] ++ String.join [
    row ["Source files", toString s.totalFiles], row ["React", s.reactVersion.getD "-"],
    row ["Next.js", s.nextVersion.getD "-"], row ["Client components", toString s.clientComponents],
    row ["Server components", toString s.serverComponents],
    row ["Oversized files", toString s.oversizedFiles.length],
    row ["TypeScript strict", if s.typescriptStrict then "yes" else "no"]]

/-- The last line. -/
def footer : String := "---\n\n*Generated by react-health*\n"

end Checkup.Markdown

namespace Checkup

/-- The report in Markdown, written at the given time. -/
def markdownReport (time : String) (v : ReportView) : String :=
  String.join [Markdown.header time v.result, "\n", Markdown.summary v, "\n", Markdown.findings v, "\n",
    Markdown.dependencies v.result, Markdown.security v.result.security, Markdown.project v.result.stats, "\n",
    Markdown.footer]

end Checkup
