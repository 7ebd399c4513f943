import Checkup.Json.Record
import Checkup.Project.Folder

/-!
# Manifests

A `Manifest` is what `package.json` says about a project: its name, the packages it depends on and its scripts.

* `Manifest.versionOf`: the version that the project asks for.
* `stripRange`: a version without the marks of a range.
* `majorVersion`: the number in front of a version.
-/

namespace Checkup

open Json (Tree)

/-- The part of `package.json` that a scan reads. Dictionaries are in the order of their keys. -/
structure Manifest where
  name : Option String
  dependencies : List (String × String)
  devDependencies : List (String × String)
  scripts : List (String × String)
  deriving DecidableEq, Repr

namespace Manifest

/-- The name of the file. -/
def fileName : String := "package.json"

/-- The manifest of an object. -/
def ofTree (v : Tree) : Option Manifest := do
  let r ← v.record? ["name", "dependencies", "devDependencies", "scripts"]
  return {
    name := ← r.orElse "name" none (Tree.nullable? Tree.string?)
    dependencies := ← r.orElse "dependencies" [] (Tree.dictionary? Tree.string?)
    devDependencies := ← r.orElse "devDependencies" [] (Tree.dictionary? Tree.string?)
    scripts := ← r.orElse "scripts" [] (Tree.dictionary? Tree.string?) }

/-- The manifest of a text. -/
def parse (t : Text) : Option Manifest := (Tree.parse t).bind ofTree

/-- The version of a package that the project asks for. Dependencies come before those of development. -/
def versionOf (m : Manifest) (package : String) : Option String :=
  (m.dependencies.lookup package).or (m.devDependencies.lookup package)

/-- Whether the project depends on a package. -/
def declares (m : Manifest) (package : String) : Bool := (m.versionOf package).isSome

/-- Whether the project depends on Next.js. -/
def usesNext (m : Manifest) : Bool := m.declares "next"

end Manifest

/-- The marks in front of a version that make it a range, and the letter in front of one. -/
def isRangeMark (c : Char) : Bool := ['^', '~', '>', '<', '=', 'v'].contains c

/-- The version without blanks and the marks in front. -/
def stripRange (version : Text) : Text := (version.filter fun c => !c.isBlank).dropWhile isRangeMark

/-- The number in front of a version, if a 64-bit word holds it. -/
def majorVersion (version : Text) : Option Nat :=
  let digits := (stripRange version).takeWhile Char.isDigit
  let n := Json.Numeral.ofDigits digits
  if digits.isEmpty || pow2 64 ≤ n then none else some n

end Checkup
