import Checkup.Policy

/-!
# Views

A report shows a view of a result: the findings of some severities only, grouped by severity, and of long groups the
first ones. Score and counts are those of the whole result.
-/

namespace Checkup

/-- What a report shows. -/
structure ReportView where
  result : ScanResult
  policy : Option PolicyOutcome
  /-- the severities whose findings are listed; none stands for all -/
  severities : List Severity
  showAll : Bool

/-- How many findings of a group are listed unless all are. -/
def groupLimit : Nat := 10

/-- Findings of one severity. -/
structure FindingGroup where
  severity : Severity
  findings : List Finding

namespace ReportView

/-- Whether findings of the severity are listed. -/
def lists (v : ReportView) (s : Severity) : Bool := v.severities.isEmpty || v.severities.contains s

/-- The findings that are listed, in the order of the result. -/
def findings (v : ReportView) : List Finding := v.result.findings.filter fun f => v.lists f.severity

/-- The findings of one severity. -/
def group (v : ReportView) (s : Severity) : FindingGroup :=
  ⟨s, v.result.findings.filter fun f => f.severity == s⟩

/-- The groups that are listed, the worst first, without empty ones. -/
def groups (v : ReportView) : List FindingGroup :=
  ((Severity.all.filter v.lists).map v.group).filter fun g => !g.findings.isEmpty

/-- The findings of a group that are shown. -/
def shown (v : ReportView) (g : FindingGroup) : List Finding :=
  if v.showAll then g.findings else g.findings.take groupLimit

/-- How many findings of a group are not shown. -/
def hidden (v : ReportView) (g : FindingGroup) : Nat := g.findings.length - (v.shown g).length

end ReportView

/-- Milliseconds as seconds with two places. -/
def secondsText (ms : Nat) : String :=
  let seconds := Decimal.fixedText (Float.ofNat ms / 1000) 2
  s!"{seconds}s"

end Checkup
