import Checkup.ScanResult
import Checkup.Tool.Linter

/-!
# Scores

A score starts at 100 and loses points for everything that was found.

* `dedup`: findings without repetitions.
* `sortBySeverity`: findings with the worst first.
* `Penalties.of`: the points that a scan loses, by source.
* `ScanInputs.result`: the result of a scan.
-/

namespace Checkup

/-- The findings that are not in the list of issues already seen, each issue once, where it first occurs. -/
def dedupFrom (seen : List (String × Location × String)) : List Finding → List Finding
  | [] => []
  | f :: fs => if seen.contains f.key then dedupFrom seen fs else f :: dedupFrom (f.key :: seen) fs

/-- The findings, each issue once, where it first occurs. -/
def dedup (fs : List Finding) : List Finding := dedupFrom [] fs

/-- The findings with the worst first. Those of one severity keep their order. -/
def sortBySeverity (fs : List Finding) : List Finding := fs.mergeSort fun a b => a.severity.rank ≤ b.severity.rank

/-- The parts of components in the browser above which points are lost, and how many, the greatest first. -/
def ratioPenalties : List (Float × Nat) := [(0.8, 5), (0.6, 2)]

/-- The points that a project loses because so many of its components run in the browser. -/
def clientRatioPenalty (s : ProjectStats) : Nat :=
  if s.usesNext then
    match s.clientRatio with
    | some ratio => ((ratioPenalties.find? fun p => p.1 < ratio).map Prod.snd).getD 0
    | none => 0
  else 0

/-- The double, or the bound that it exceeds. -/
def clamp (low high x : Float) : Float :=
  let y := if x < low then low else x
  if high < y then high else y

/-- The points that a scan loses, by source. -/
structure Penalties where
  findings : Nat
  dependencies : Nat
  vulnerabilities : Nat
  clientRatio : Nat
  deriving DecidableEq, Repr

namespace Penalties

/-- The points of all items together. -/
def points (ps : List Nat) : Nat := ps.foldr (· + ·) 0

/-- The points for all that was found. -/
def of (findings : List Finding) (issues : List DependencyIssue) (vulnerabilities : List Vulnerability)
    (stats : ProjectStats) : Penalties :=
  { findings := points (findings.map fun f => f.severity.penalty)
    dependencies := points (issues.map fun i => i.severity.penalty)
    vulnerabilities := points (vulnerabilities.map fun v => v.severity.penalty)
    clientRatio := clientRatioPenalty stats }

/-- All points. -/
def total (p : Penalties) : Nat := p.findings + p.dependencies + p.vulnerabilities + p.clientRatio

/-- What is left of 100 points, as a double. -/
def remaining (p : Penalties) : Float := 100 - (UInt32.ofNat p.total).toFloat

/-- What is left of 100 points, rounded to a byte. -/
def score (p : Penalties) : Nat := min 255 (Decimal.Dyadic.ofFloat (clamp 0 100 p.remaining)).nearest

end Penalties

/-- What the parts of a scan found out. -/
structure ScanInputs where
  ruleFindings : List Finding
  lint : LintReport
  configFindings : List Finding
  stats : ProjectStats
  statsFindings : List Finding
  dependencyIssues : List DependencyIssue
  vulnerabilities : List Vulnerability
  diagnostics : List Diagnostic

namespace ScanInputs

/-- The findings of all parts, each issue once, the worst first. -/
def findings (i : ScanInputs) : List Finding :=
  sortBySeverity (dedup (i.ruleFindings ++ i.lint.findings ++ i.configFindings ++ i.statsFindings))

/-- The statistics, with the number of files that the linter looked at if it says so. -/
def finalStats (i : ScanInputs) : ProjectStats :=
  if 0 < i.lint.fileCount then { i.stats with totalFiles := i.lint.fileCount } else i.stats

/-- The points that the scan loses. -/
def penalties (i : ScanInputs) : Penalties := .of i.findings i.dependencyIssues i.vulnerabilities i.finalStats

/-- The result of a scan that took so many milliseconds. -/
def result (i : ScanInputs) (elapsedMs : Nat) : ScanResult :=
  { score := i.penalties.score
    elapsedMs := elapsedMs
    findings := i.findings
    stats := i.finalStats
    dependencyIssues := i.dependencyIssues
    security := .ofList i.vulnerabilities
    diagnostics := i.diagnostics }

end ScanInputs

end Checkup
