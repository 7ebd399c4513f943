import Checkup.Finding

/-!
# Dependency issues

What can be wrong with the packages that a project declares or has installed.
-/

namespace Checkup

open Json (Tree)

/-- The kinds of dependency issues. -/
inductive DependencyIssue.Kind where
  | versionMismatch
  | devDependencyMisplaced
  | duplicateInstall
  | outdated
  | unused
  deriving DecidableEq, Repr

namespace DependencyIssue.Kind

/-- All kinds. -/
def all : List Kind := [versionMismatch, devDependencyMisplaced, duplicateInstall, outdated, unused]

/-- The name in data. -/
def name : Kind → String
  | versionMismatch => "version-mismatch"
  | devDependencyMisplaced => "dev-dependency-misplaced"
  | duplicateInstall => "duplicate-install"
  | outdated => "outdated"
  | unused => "unused"

/-- The name in a report. -/
def label : Kind → String
  | versionMismatch => "version mismatch"
  | devDependencyMisplaced => "misplaced dev dependency"
  | duplicateInstall => "duplicate install"
  | outdated => "outdated"
  | unused => "unused"

end DependencyIssue.Kind

/-- Something wrong with a package. -/
structure DependencyIssue where
  kind : DependencyIssue.Kind
  package : Option String
  message : String
  severity : Severity
  deriving DecidableEq, Repr

namespace DependencyIssue

/-- The issue as an object. -/
def toJson (i : DependencyIssue) : Json :=
  .object <|
    [("kind", .string i.kind.name)] ++ Finding.present "package" i.package ++
      [("message", .string i.message), ("severity", i.severity.toJson)]

/-- The issue of an object. -/
def ofTree (v : Tree) : Option DependencyIssue := do
  let r ← v.record? ["kind", "package", "message", "severity"]
  return {
    kind := ← r.required "kind" (Tree.case? (Kind.all.map fun k => (k.name, k)))
    package := ← r.orElse "package" none (Tree.nullable? Tree.string?)
    message := ← r.required "message" Tree.string?
    severity := ← r.required "severity" Severity.ofTree }

end DependencyIssue

end Checkup
