import Checkup.Cli.Arguments
import Checkup.Project.Write
import Checkup.Report.RuleList
import Checkup.Scan

/-!
# Runs of the program

`Arguments.run` does what the arguments say: it lists the rules, or scans a project and reports on it. A run reads and
writes one folder, and its outcome tells what a user sees of it.

* `Surroundings`: what a run meets.
* `RunOutcome`: what it leaves.
* `RunOutcome.exitCode`: a run fails on a fault, or if its policy does.
-/

namespace Checkup

/-- What a run meets. -/
structure Surroundings where
  box : Toolbox
  folder : Folder
  useColor : Bool
  /-- how long a scan takes -/
  elapsedMs : Nat
  /-- the time of the run, as a report shows it -/
  time : String

/-- Why a run comes to an end early. -/
inductive RunFault where
  | config (fault : ConfigFault)
  | write (fault : WriteFault)
  deriving DecidableEq, Repr

/-- The message about a fault. -/
def RunFault.message : RunFault → String
  | config fault => fault.message
  | write (.noDirectory path) => s!"failed to create directory {path}"
  | write (.noFile path) => s!"failed to write Markdown report to {path}"

/-- What a run leaves. -/
structure RunOutcome where
  /-- what it prints -/
  output : String
  /-- what it tells the user besides, a line each -/
  notices : List String
  fault : Option RunFault
  policy : Option PolicyOutcome
  folder : Folder
  commands : List Command

namespace RunOutcome

/-- Whether the run went wrong, or found what must not be there. -/
def isFailure (o : RunOutcome) : Bool := o.fault.isSome || o.policy.any PolicyOutcome.shouldFail

/-- The exit code of the program. -/
def exitCode (o : RunOutcome) : Nat := if o.isFailure then 1 else 0

end RunOutcome

/-- A text that ends its last line. -/
def printed (s : String) : String := s ++ "\n"

namespace Surroundings

variable (s : Surroundings)

/-- The outcome of a run that does no more than print. -/
def printing (output : String) : RunOutcome := ⟨output, [], none, none, s.folder, []⟩

/-- The outcome of a run that does not come to a report. -/
def stopped (fault : ConfigFault) : RunOutcome := ⟨"", [], some (.config fault), none, s.folder, []⟩

/-- The notice that a report was written. -/
def writtenNotice (path : String) : String :=
  let path := (Style.colored .cyan).paint s.useColor path
  s!"Markdown report written to: {path}"

end Surroundings

/-- The notice that the policy is violated. -/
def PolicyOutcome.notice? (p : PolicyOutcome) : Option String :=
  if p.shouldFail then some s!"Failing due to --fail-on={p.target.name} ({p.total} matching)" else none

namespace Arguments

variable (a : Arguments)

/-- How the project with some settings is scanned. The arguments leave out more than the settings do. -/
def scanOptions (settings : Settings) : ScanOptions :=
  let o := ScanOptions.ofSettings a.path settings
  { o with runLinter := o.runLinter && !a.noLint, runAudit := o.runAudit && !a.noAudit }

/-- The severity of which nothing may be found. The arguments go before the settings, which still have to be right. -/
def failOnSeverity (settings : Settings) : Except ConfigFault (Option Severity) := do
  return a.failOn.or (← settings.failOnSeverity)

/-- The list of rules in the format. -/
def ruleList (useColor : Bool) : String :=
  let rules := builtinRules .standard
  if a.format == .json then ruleListData rules else ruleListText useColor rules

/-- Writes the report in Markdown that the arguments ask for; the notice is only for those who read text. -/
def writeMarkdown (s : Surroundings) (v : ReportView) : Except WriteFault (Folder × List String) :=
  match a.markdown with
  | none => .ok (s.folder, [])
  | some path => do
    let folder ← s.folder.write path (v.write .markdown false s.time).toUTF8.toList
    return (folder, if a.format == .text then [s.writtenNotice path] else [])

/-- The outcome of a run once the project is scanned. -/
def report (s : Surroundings) (v : ReportView) (commands : List Command) : RunOutcome :=
  let output := printed (v.write a.format s.useColor s.time)
  match a.writeMarkdown s v with
  | .error fault => ⟨output, [], some (.write fault), none, s.folder, commands⟩
  | .ok (folder, notices) =>
    ⟨output, notices ++ (v.policy.bind PolicyOutcome.notice?).toList, none, v.policy, folder, commands⟩

/-- Scans the project and gives the view of the result. -/
def view (s : Surroundings) (settings : Settings) : Except ConfigFault ReportView := do
  let failOn ← a.failOnSeverity settings
  let result ← (a.scanOptions settings).scan s.box s.folder s.elapsedMs
  return ⟨result, failOn.map (PolicyOutcome.of result), a.severities, a.showAll⟩

/-- What a run leaves. -/
def run (s : Surroundings) : RunOutcome :=
  if a.listRules then s.printing (printed (a.ruleList s.useColor))
  else
    let settings := Settings.load s.folder a.path
    match a.view s settings with
    | .error fault => s.stopped fault
    | .ok v => a.report s v ((a.scanOptions settings).commands s.box s.folder)

end Arguments

end Checkup
