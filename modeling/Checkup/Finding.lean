import Checkup.Severity

/-!
# Findings

A `Finding` is one detected issue: what is wrong, how much it weighs, and where it is. Lines and columns count from
one; line zero points at a whole file, and without a path at the whole project.
-/

namespace Checkup

open Json (Tree)

/-- Where a finding points. -/
structure Location where
  path : String
  line : Nat
  column : Nat
  deriving DecidableEq, Repr

namespace Location

/-- A whole file. -/
def file (path : String) : Location := ⟨path, 0, 0⟩

/-- The whole project. -/
def project : Location := ⟨"", 0, 0⟩

/-- Whether the location is the whole project. -/
def isProjectWide (l : Location) : Bool := l.path.isEmpty && l.line = 0

/-- The location in a report. -/
def text (l : Location) : String :=
  if l.path.isEmpty then "(project)" else if l.line = 0 then l.path else s!"{l.path}:{l.line}:{l.column}"

/-- The location as an object. -/
def toJson (l : Location) : Json :=
  .object [("path", .string l.path), ("line", .nat l.line), ("column", .nat l.column)]

/-- The location of an object. -/
def ofTree (v : Tree) : Option Location := do
  let r ← v.record? ["path", "line", "column"]
  return ⟨← r.required "path" Tree.string?, ← r.required "line" Tree.word32?, ← r.required "column" Tree.word32?⟩

end Location

/-- One detected issue. -/
structure Finding where
  severity : Severity
  ruleId : String
  message : String
  help : Option String
  location : Location
  referenceUrl : Option String
  deriving DecidableEq, Repr

namespace Finding

/-- What makes two findings the same issue: rule, place and message. -/
def key (f : Finding) : String × Location × String := (f.ruleId, f.location, f.message)

/-- A member of an object that is left out if it has no value. -/
def present (key : String) : Option String → List (String × Json)
  | none => []
  | some s => [(key, .string s)]

/-- The finding as an object. -/
def toJson (f : Finding) : Json :=
  .object <|
    [("severity", f.severity.toJson), ("rule_id", .string f.ruleId), ("message", .string f.message)] ++
      present "help" f.help ++ [("location", f.location.toJson)] ++ present "reference_url" f.referenceUrl

/-- The finding of an object. -/
def ofTree (v : Tree) : Option Finding := do
  let r ← v.record? ["severity", "rule_id", "message", "help", "location", "reference_url"]
  return {
    severity := ← r.required "severity" Severity.ofTree
    ruleId := ← r.required "rule_id" Tree.string?
    message := ← r.required "message" Tree.string?
    help := ← r.orElse "help" none (Tree.nullable? Tree.string?)
    location := ← r.required "location" Location.ofTree
    referenceUrl := ← r.orElse "reference_url" none (Tree.nullable? Tree.string?) }

end Finding

/-- A problem that did not stop the scan: its source and what happened. -/
structure Diagnostic where
  source : String
  message : String
  deriving DecidableEq, Repr

namespace Diagnostic

/-- The diagnostic as an object. -/
def toJson (d : Diagnostic) : Json := .object [("source", .string d.source), ("message", .string d.message)]

/-- The diagnostic of an object. -/
def ofTree (v : Tree) : Option Diagnostic := do
  let r ← v.record? ["source", "message"]
  return ⟨← r.required "source" Tree.string?, ← r.required "message" Tree.string?⟩

end Diagnostic

end Checkup
