import Checkup.Dependency.Issue
import Checkup.Project.Stats

/-!
# Scan results

A `ScanResult` is all that a scan found out, with the score that sums it up.
-/

namespace Checkup

open Json (Tree)

/-- What a scan found out. -/
structure ScanResult where
  score : Nat
  elapsedMs : Nat
  findings : List Finding
  stats : ProjectStats
  dependencyIssues : List DependencyIssue
  security : SecuritySummary
  diagnostics : List Diagnostic

namespace ScanResult

/-- How many findings there are of each severity. -/
def counts (r : ScanResult) : SeverityCounts := .ofList (r.findings.map Finding.severity)

/-- The words for the score: from 75 points up all is well, below 50 it is not. -/
def rating (r : ScanResult) : String :=
  if 75 ≤ r.score && r.score ≤ 100 then "Great" else if 50 ≤ r.score && r.score < 75 then "Needs work" else "Critical"

/-- The result of an object. -/
def ofTree (v : Tree) : Option ScanResult := do
  let r ← v.record? ["score", "elapsed_ms", "findings", "stats", "dependency_issues", "security", "diagnostics"]
  return {
    score := ← r.required "score" (Tree.natBelow? (pow2 8))
    elapsedMs := ← r.required "elapsed_ms" Tree.word64?
    findings := ← r.required "findings" (Tree.list? Finding.ofTree)
    stats := ← r.required "stats" ProjectStats.ofTree
    dependencyIssues := ← r.required "dependency_issues" (Tree.list? DependencyIssue.ofTree)
    security := ← r.required "security" SecuritySummary.ofTree
    diagnostics := ← r.orElse "diagnostics" [] (Tree.list? Diagnostic.ofTree) }

end ScanResult

end Checkup
