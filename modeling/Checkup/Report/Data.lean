import Checkup.Report.View

/-!
# Reports as data

`dataReport` writes a view as JSON for other programs.
-/

namespace Checkup

/-- The members of the object that a view amounts to. The policy is left out if there is none. -/
def reportMembers (v : ReportView) : List (String × Json) :=
  let r := v.result
  [("score", .nat r.score), ("rating", .string r.rating), ("elapsed_ms", .nat r.elapsedMs),
    ("counts", r.counts.toJson), ("findings", .array (v.findings.map Finding.toJson)),
    ("dependency_issues", .array (r.dependencyIssues.map DependencyIssue.toJson)),
    ("security", r.security.toJson), ("stats", r.stats.toJson),
    ("diagnostics", .array (r.diagnostics.map Diagnostic.toJson))] ++
    (v.policy.map fun p => ("policy", p.toJson)).toList

/-- The report for other programs. -/
def dataReport (v : ReportView) : String := String.ofList (Json.object (reportMembers v)).pretty

end Checkup
