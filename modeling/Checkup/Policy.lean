import Checkup.ScanResult

/-!
# The fail-on policy

A policy names one severity. A scan fails it if it found something of exactly that severity; worse things do not
count. Advisories count with the severity that corresponds to theirs.

* `PolicyOutcome.of`: what a policy says about a result.
-/

namespace Checkup

/-- What a policy says about a result. -/
structure PolicyOutcome where
  target : Severity
  findingMatches : Nat
  dependencyMatches : Nat
  vulnerabilityMatches : Nat
  /-- everything that was found, by severity -/
  breakdown : SeverityCounts
  deriving DecidableEq, Repr

namespace PolicyOutcome

/-- The outcome for a target. -/
def of (r : ScanResult) (target : Severity) : PolicyOutcome :=
  let findings := r.findings.map Finding.severity
  let dependencies := r.dependencyIssues.map DependencyIssue.severity
  let vulnerabilities := r.security.vulnerabilities.map fun v => v.severity.asFinding
  { target := target
    findingMatches := findings.count target
    dependencyMatches := dependencies.count target
    vulnerabilityMatches := vulnerabilities.count target
    breakdown := .ofList (findings ++ dependencies ++ vulnerabilities) }

/-- The number of things of the target's severity. -/
def total (p : PolicyOutcome) : Nat := p.findingMatches + p.dependencyMatches + p.vulnerabilityMatches

/-- Whether the scan fails. -/
def shouldFail (p : PolicyOutcome) : Bool := 0 < p.total

/-- The outcome as an object. -/
def toJson (p : PolicyOutcome) : Json :=
  .object [("target", p.target.toJson), ("should_fail", .bool p.shouldFail),
    ("finding_matches", .nat p.findingMatches), ("dependency_matches", .nat p.dependencyMatches),
    ("vulnerability_matches", .nat p.vulnerabilityMatches), ("breakdown", p.breakdown.toJson)]

end PolicyOutcome

end Checkup
