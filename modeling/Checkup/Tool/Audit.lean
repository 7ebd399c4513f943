import Checkup.Tool.Basic
import Checkup.Vulnerability

/-!
# The security audit

The package manager lists advisories in one of three shapes: bun by package, npm by package inside `vulnerabilities`
where names of other packages stand among the advisories, and older versions of npm by number inside `advisories`.

* `Vulnerability.ofAdvisory`: the advisory that an object describes.
* `vulnerabilitiesOf`: all advisories of an output, the worst first.
* `Toolbox.audit`: runs the audit.
-/

namespace Checkup

/-- The string of a member. -/
def Json.stringAt? (v : Json) (key : String) : Option String := (v.get? key).bind Json.string?

namespace Vulnerability

/-- The classes of weaknesses: a list, of which only strings count, or a single one. -/
def cweOf (v : Json) : List String :=
  match v.get? "cwe" with
  | some (.array items) => items.filterMap Json.string?
  | some (.string s) => [s]
  | _ => []

/-- The score from zero to ten. -/
def cvssOf (v : Json) : Option Float :=
  (((v.get? "cvss").bind fun c => c.get? "score").or (v.get? "cvss_score")).bind Json.float?

/-- The advisory that an object describes, if it has a title. The package and the range of versions stand in for
those that the object does not name. -/
def ofAdvisory (package : String) (range : Option String) (v : Json) : Option Vulnerability :=
  (v.stringAt? "title").map fun title =>
    { id := (((v.get? "id").or (v.get? "source")).bind Json.nat?).getD 0
      package := ((v.stringAt? "module_name").or (v.stringAt? "name")).getD package
      title := title
      severity := VulnerabilitySeverity.parse ((v.stringAt? "severity").getD "low")
      referenceUrl := (v.stringAt? "url").getD ""
      vulnerableVersions := (((v.stringAt? "vulnerable_versions").or (v.stringAt? "range")).or range).getD ""
      cwe := cweOf v
      cvssScore := cvssOf v }

/-- The advisories, the worst first. Advisories of one step keep their order. -/
def sort (vs : List Vulnerability) : List Vulnerability :=
  vs.mergeSort fun a b => a.severity.rank ≤ b.severity.rank

end Vulnerability

/-- Whether the value is an object. -/
def Json.isObject (v : Json) : Bool := v.object?.isSome

/-- The advisories about a package among the reasons why it is vulnerable. -/
def advisoriesVia (package : String) (entry : Json) : List Vulnerability :=
  let reasons := ((entry.get? "via").bind Json.array?).getD []
  (reasons.filter Json.isObject).filterMap (Vulnerability.ofAdvisory package (entry.stringAt? "range"))

/-- The advisories about a package in a list of them. -/
def advisoriesIn (package : String) (entry : Json) : List Vulnerability :=
  (entry.array?.getD []).filterMap (Vulnerability.ofAdvisory package none)

/-- The advisories of an object in one of the three shapes, in the order of the object. -/
def advisories (v : Json) : List Vulnerability :=
  match (v.get? "vulnerabilities").bind Json.object?, (v.get? "advisories").bind Json.object? with
  | some packages, _ => packages.flatMap fun (package, entry) => advisoriesVia package entry
  | none, some entries => entries.filterMap fun (_, entry) => Vulnerability.ofAdvisory "unknown" none entry
  | none, none => (v.object?.getD []).flatMap fun (package, entry) => advisoriesIn package entry

/-- The advisories that an audit prints, the worst first. An output without an object has none. -/
def vulnerabilitiesOf (output : String) : Except ToolFault (List Vulnerability) :=
  match jsonObject? output.toList with
  | none => .ok []
  | some object =>
    match Json.parse object with
    | some v => .ok (Vulnerability.sort (advisories v))
    | none => .error (.malformed "audit")

/-- The command that runs the audit. -/
def auditCommand (m : PackageManager) : Command := [m.program, "audit", "--json"]

/-- Runs the audit. -/
def Toolbox.audit (box : Toolbox) : Except ToolFault (List Vulnerability) :=
  match box.manager with
  | none => .error (.notFound "bun or npm")
  | some m => (box.run s!"{m.program} audit" (auditCommand m)).bind vulnerabilitiesOf

end Checkup
