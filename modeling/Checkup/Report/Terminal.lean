import Checkup.Report.Style
import Checkup.Report.View

/-!
# Reports for a terminal

`terminalReport` writes a view as text for a reader at a terminal, in color or not.
-/

namespace Checkup

/-- The style of a severity. -/
def Severity.style : Severity → Style
  | .critical => (Style.colored .red).strong
  | .performance => .colored .yellow
  | .bestPractice => .colored .blue
  | .info => .dim

/-- The style of a step of the scale of advisories. -/
def VulnerabilitySeverity.style : VulnerabilitySeverity → Style
  | .critical => (Style.colored .red).strong
  | .high => .colored .red
  | .moderate => .colored .yellow
  | .low => .dim

/-- The style of a score. -/
def scoreStyle (score : Nat) : Style :=
  (Style.colored (if 75 ≤ score && score ≤ 100 then .green else if 50 ≤ score && score < 75 then .yellow
    else .red)).strong

/-- The number of characters that a location may have. -/
def locationWidth : Nat := 40

/-- The location, of which only the end is shown if it is long. -/
def shortLocation (l : Location) : String :=
  let t := l.text.toList
  if locationWidth < t.length then String.ofList ("...".toList ++ t.drop (t.length - (locationWidth - 3))) else l.text

namespace Terminal

variable (useColor : Bool)

/-- The title and the score. -/
def header (r : ScanResult) : String :=
  let title := Style.bold.paint useColor "React Health"
  let rule := Style.dim.paint useColor (String.ofList (List.replicate 38 '─'))
  let score := (scoreStyle r.score).paint useColor s!"{r.score}/100"
  let rating := Style.bold.paint useColor r.rating
  s!"\n{title}\n{rule}\nScore: {score}  {rating}\n\n"

/-- How many findings there are of each severity. -/
def summary (r : ScanResult) : String :=
  let title := Style.bold.paint useColor "FINDINGS"
  let present := Severity.all.filter fun s => 0 < r.counts.get s
  let parts := present.map fun s => s.style.paint useColor s!"{r.counts.get s} {s.lowerLabel}"
  let line := if parts.isEmpty then "" else "  " ++ " | ".intercalate parts ++ "\n"
  s!"{title} ({r.counts.total} total)\n{line}\n"

/-- A finding. -/
def finding (f : Finding) : String :=
  let location := Style.dim.paint useColor (shortLocation f.location)
  let rule := Style.dim.paint useColor s!"[{f.ruleId}]"
  let help := match f.help with
    | some text => "      " ++ Style.dim.paint useColor text ++ "\n"
    | none => ""
  s!"  {location}  {f.message} {rule}\n{help}"

/-- A group of findings. -/
def group (v : ReportView) (g : FindingGroup) : String :=
  let title := g.severity.style.strong.paint useColor s!"{g.severity.label} ({g.findings.length})"
  let rows := String.join ((v.shown g).map (finding useColor))
  let more := if v.hidden g = 0 then ""
    else "  " ++ Style.dim.paint useColor s!"...and {v.hidden g} more (use --all)" ++ "\n"
  s!"{title}\n{rows}{more}\n"

/-- The findings. -/
def findings (v : ReportView) : String :=
  if v.result.findings.isEmpty then (Style.colored .green).paint useColor "No issues found." ++ "\n\n"
  else String.join (v.groups.map (group useColor v))

/-- A dependency issue. -/
def issue (i : DependencyIssue) : String :=
  let kind := i.severity.style.paint useColor s!"[{i.kind.label}]"
  s!"  {kind} {i.message}\n"

/-- The dependency issues, if there are any. -/
def dependencies (r : ScanResult) : String :=
  if r.dependencyIssues.isEmpty then ""
  else
    let title := Style.bold.paint useColor "DEPENDENCIES"
    let rows := String.join (r.dependencyIssues.map (issue useColor))
    s!"{title} ({r.dependencyIssues.length})\n{rows}\n"

/-- An advisory. -/
def vulnerability (v : Vulnerability) : String :=
  let step := v.severity.style.paint useColor s!"[{v.severity.name}]"
  let versions := if v.vulnerableVersions.isEmpty then ""
    else " " ++ Style.dim.paint useColor s!"({v.vulnerableVersions})"
  s!"  {step} {v.package}: {v.title}{versions}\n"

/-- The advisories, if there are any. -/
def security (s : SecuritySummary) : String :=
  if s.total = 0 then ""
  else
    let title := Style.bold.paint useColor "SECURITY"
    let rows := String.join (s.vulnerabilities.map (vulnerability useColor))
    s!"{title} {s.critical} critical, {s.high} high, {s.moderate} moderate, {s.low} low\n{rows}\n"

/-- The facts about the project in one line. -/
def facts (s : ProjectStats) : String :=
  let parts := [s!"{s.totalFiles} files"] ++ (s.reactVersion.map fun version => s!"react {version}").toList ++
    (s.nextVersion.map fun version => s!"next {version}").toList ++
    if s.components = 0 then []
    else [s!"{s.clientComponents} client / {s.serverComponents} server components"]
  "  ·  ".intercalate parts

/-- What the policy says. -/
def policy (p : PolicyOutcome) : String :=
  let style := if p.shouldFail then (Style.colored .red).strong else .colored .green
  style.paint useColor
      (s!"fail-on {p.target.name}: {p.total} matching ({p.findingMatches} findings, " ++
        s!"{p.dependencyMatches} dependency issues, {p.vulnerabilityMatches} vulnerabilities)") ++ "\n"

/-- The facts, what could not be checked, the time, and what the policy says. -/
def footer (v : ReportView) : String :=
  let facts := Style.dim.paint useColor (facts v.result.stats)
  let count := v.result.diagnostics.length
  let degraded := if count = 0 then ""
    else (Style.colored .yellow).paint useColor
      s!"{count} checks degraded (run with --log-level debug for details)" ++ "\n"
  let time := Style.dim.paint useColor s!"Done in {secondsText v.result.elapsedMs}"
  s!"{facts}\n{degraded}{time}\n" ++ ((v.policy.map (policy useColor)).getD "")

end Terminal

/-- The report for a terminal. -/
def terminalReport (useColor : Bool) (v : ReportView) : String :=
  String.join [Terminal.header useColor v.result, Terminal.summary useColor v.result, Terminal.findings useColor v,
    Terminal.dependencies useColor v.result, Terminal.security useColor v.result.security,
    Terminal.footer useColor v]

end Checkup
