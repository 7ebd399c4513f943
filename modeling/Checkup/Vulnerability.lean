import Checkup.Finding

/-!
# Vulnerabilities

A `Vulnerability` is an advisory about an installed package. Advisories have a scale of their own, the worst first;
`VulnerabilitySeverity.asFinding` says which severity of a finding each step corresponds to.
-/

namespace Checkup

open Json (Tree)

/-- How severe an advisory is, the worst first. -/
inductive VulnerabilitySeverity where
  | critical
  | high
  | moderate
  | low
  deriving DecidableEq, Repr

namespace VulnerabilitySeverity

/-- All steps, the worst first. -/
def all : List VulnerabilitySeverity := [critical, high, moderate, low]

/-- The place in the order, the worst first. -/
def rank : VulnerabilitySeverity → Nat
  | critical => 0
  | high => 1
  | moderate => 2
  | low => 3

/-- The name in reports. -/
def name : VulnerabilitySeverity → String
  | critical => "critical"
  | high => "high"
  | moderate => "moderate"
  | low => "low"

/-- The step that an audit names. Any name that is not known counts as low. -/
def parse (name : String) : VulnerabilitySeverity :=
  let spellings :=
    [("critical", critical), ("high", high), ("moderate", moderate), ("medium", moderate)]
  (spellings.lookup (String.ofList (Text.toLower (Text.trim name.toList)))).getD low

/-- The severity of a finding that the step corresponds to. -/
def asFinding : VulnerabilitySeverity → Severity
  | critical => .critical
  | high => .performance
  | moderate => .bestPractice
  | low => .info

/-- The points that one advisory takes off the score. -/
def penalty : VulnerabilitySeverity → Nat
  | critical => 15
  | high => 8
  | moderate => 3
  | low => 1

/-- The step of its name. -/
def ofTree : Tree → Option VulnerabilitySeverity := Tree.case? (all.map fun s => (s.name, s))

end VulnerabilitySeverity

/-- An advisory about an installed package. -/
structure Vulnerability where
  id : Nat
  package : String
  title : String
  severity : VulnerabilitySeverity
  referenceUrl : String
  vulnerableVersions : String
  cwe : List String
  cvssScore : Option Float

namespace Vulnerability

/-- A double, or null. Null also stands for a double that is infinite or not a number. -/
def optDouble : Option Float → Json
  | none => .null
  | some x => if x.isFinite then .number (.real x) else .null

/-- The advisory as an object. -/
def toJson (v : Vulnerability) : Json :=
  .object [("id", .nat v.id), ("package", .string v.package), ("title", .string v.title),
    ("severity", .string v.severity.name), ("reference_url", .string v.referenceUrl),
    ("vulnerable_versions", .string v.vulnerableVersions), ("cwe", .strings v.cwe),
    ("cvss_score", optDouble v.cvssScore)]

/-- The advisory of an object. -/
def ofTree (v : Tree) : Option Vulnerability := do
  let r ← v.record? ["id", "package", "title", "severity", "reference_url", "vulnerable_versions", "cwe", "cvss_score"]
  return {
    id := ← r.required "id" Tree.word64?
    package := ← r.required "package" Tree.string?
    title := ← r.required "title" Tree.string?
    severity := ← r.required "severity" VulnerabilitySeverity.ofTree
    referenceUrl := ← r.orElse "reference_url" "" Tree.string?
    vulnerableVersions := ← r.orElse "vulnerable_versions" "" Tree.string?
    cwe := ← r.orElse "cwe" [] (Tree.list? Tree.string?)
    cvssScore := ← r.orElse "cvss_score" none (Tree.nullable? Tree.double?) }

end Vulnerability

/-- The advisories of a project and how many there are of each step. -/
structure SecuritySummary where
  vulnerabilities : List Vulnerability
  critical : Nat
  high : Nat
  moderate : Nat
  low : Nat

namespace SecuritySummary

/-- The summary of a list of advisories. -/
def ofList (vs : List Vulnerability) : SecuritySummary :=
  let count s := (vs.map Vulnerability.severity).count s
  ⟨vs, count .critical, count .high, count .moderate, count .low⟩

/-- The number of advisories according to the counts. -/
def total (s : SecuritySummary) : Nat := s.critical + s.high + s.moderate + s.low

/-- The summary as an object. -/
def toJson (s : SecuritySummary) : Json :=
  .object [("vulnerabilities", .array (s.vulnerabilities.map Vulnerability.toJson)), ("critical", .nat s.critical),
    ("high", .nat s.high), ("moderate", .nat s.moderate), ("low", .nat s.low)]

/-- The summary of an object. -/
def ofTree (v : Tree) : Option SecuritySummary := do
  let r ← v.record? ["vulnerabilities", "critical", "high", "moderate", "low"]
  return {
    vulnerabilities := ← r.required "vulnerabilities" (Tree.list? Vulnerability.ofTree)
    critical := ← r.required "critical" Tree.word64?
    high := ← r.required "high" Tree.word64?
    moderate := ← r.required "moderate" Tree.word64?
    low := ← r.required "low" Tree.word64? }

end SecuritySummary

end Checkup
