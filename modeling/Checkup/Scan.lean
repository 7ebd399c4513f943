import Checkup.Dependency.Check
import Checkup.Project.ConfigCheck
import Checkup.Project.Survey
import Checkup.Project.Walk
import Checkup.Rule.Sweep
import Checkup.Score
import Checkup.Tool.Audit

/-!
# Scans

A scan runs the rules over the source files of a project, has the tools look at it, and checks its dependencies and
its configuration. What cannot be found out leaves a diagnostic; only a fault of the user stops a scan.

* `ScanOptions.scan`: the result of a scan.
* `ScanOptions.commands`: the commands that it runs.
-/

namespace Checkup

/-- What is scanned, and how. -/
structure ScanOptions where
  root : String
  settings : Settings
  tables : RuleTables
  runLinter : Bool
  runAudit : Bool

/-- A value, or a stand-in and the diagnostic that tells why. -/
def orDiagnose {ε α : Type} (source : String) (message : ε → String) (standIn : α) :
    Except ε α → α × List Diagnostic
  | .ok v => (v, [])
  | .error e => (standIn, [⟨source, message e⟩])

namespace ScanOptions

/-- The options that follow from the settings of the project in a directory. -/
def ofSettings (root : String) (settings : Settings) : ScanOptions :=
  ⟨root, settings, .standard, settings.runLinter, settings.runAudit⟩

variable (o : ScanOptions)

/-- The written path of a file in the root. -/
def inRoot (name : String) : String := joinPath o.root name

/-- The rules that run. -/
def rules : List Rule := withoutRules (builtinRules o.tables) o.settings.disabledRules

/-- The source files. -/
def sources (f : Folder) : Except ConfigFault (List SourceFile) := do
  collectSources f o.root (← filterGlobs o.settings.ignoredPaths)

/-- The manifest. -/
def manifest (f : Folder) : Except FileFault (Option Manifest) := f.load (o.inRoot Manifest.fileName) Manifest.parse

/-- The compiler options. -/
def tsConfig (f : Folder) : Except FileFault (Option TsConfig) := f.load (o.inRoot TsConfig.fileName) TsConfig.parse

/-- Whether there is a manifest at all. The audit needs one. -/
def hasManifest (f : Folder) : Bool := (f.fileAt? (o.inRoot Manifest.fileName)).isSome

/-- Whether packages are installed. -/
def isInstalled (f : Folder) : Bool := f.isDirAt (o.inRoot "node_modules")

/-- What the linter reports, nothing if it is not to run. -/
def lint (box : Toolbox) : Except ToolFault LintReport := if o.runLinter then box.lint o.root else .ok .empty

/-- What the audit reports, nothing if it is not to run. -/
def audit (box : Toolbox) (f : Folder) : Except ToolFault (List Vulnerability) :=
  if o.runAudit && o.hasManifest f then box.audit else .ok []

/-- What the parts of a scan find out about the given source files. -/
def inputs (box : Toolbox) (f : Folder) (files : List SourceFile) : ScanInputs :=
  let (manifest, manifestFaults) := orDiagnose "manifest" FileFault.message none (o.manifest f)
  let (tsConfig, tsConfigFaults) := orDiagnose "tsconfig" FileFault.message none (o.tsConfig f)
  let (lint, lintFaults) := orDiagnose "linter" ToolFault.message .empty (o.lint box)
  let (vulnerabilities, auditFaults) := orDiagnose "audit" ToolFault.message [] (o.audit box f)
  let sweep := Sweep.ofFiles o.rules files
  let dependencies := DependencyReport.ofProject box (o.isInstalled f) manifest files
  let stats := ProjectStats.ofProject files manifest tsConfig o.settings.largeFileLines
  { ruleFindings := sweep.findings
    lint := lint
    configFindings := configFindings f o.root tsConfig
    stats := stats
    statsFindings := statsFindings stats o.settings.largeFileLines
    dependencyIssues := dependencies.issues
    vulnerabilities := vulnerabilities
    diagnostics :=
      manifestFaults ++ tsConfigFaults ++ lintFaults ++ auditFaults ++ sweep.diagnostics ++ dependencies.diagnostics }

/-- The result of a scan that took so many milliseconds. -/
def scan (box : Toolbox) (f : Folder) (elapsedMs : Nat) : Except ConfigFault ScanResult := do
  let files ← o.sources f
  return (o.inputs box f files).result elapsedMs

/-- The commands that a scan wants to run. -/
def wantedCommands (box : Toolbox) (f : Folder) : List Command :=
  let listing := match o.manifest f with
    | .ok (some _) => o.isInstalled f
    | _ => false
  (if o.runAudit && o.hasManifest f then (box.manager.map auditCommand).toList else []) ++
    (if o.runLinter then (box.manager.map lintCommand).toList else []) ++ if listing then [listCommand] else []

/-- The commands that a scan runs: those of which there is the program. -/
def commands (box : Toolbox) (f : Folder) : List Command :=
  (o.wantedCommands box f).filter fun c => (box.output? c).isSome

end ScanOptions

end Checkup
