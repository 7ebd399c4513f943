import Checkup.Dependency.Issue
import Checkup.Project.Manifest
import Checkup.Source.File
import Checkup.Source.Import
import Checkup.Text.Identifier
import Checkup.Tool.Installed

/-!
# Checks of the dependencies

* `declaredIssues`: what is wrong with the packages that a project declares: versions that do not go together,
  packages in the wrong section, packages that nothing uses, and versions of long ago.
* `DependencyReport.ofProject`: these and copies of React in several versions among the installed packages.
-/

namespace Checkup

/-- Packages for tests and tools, which no running application needs. -/
def toolingPackages : List String := [
  "jest", "vitest", "@testing-library/*", "cypress", "playwright", "@playwright/test", "eslint", "eslint-*",
  "prettier", "typescript", "@types/*", "storybook", "@storybook/*", "msw", "ts-node", "nodemon", "husky",
  "lint-staged"]

/-- Packages that a project uses without importing them. -/
def implicitPackages : List String := [
  "react-dom", "next", "typescript", "@types/*", "eslint-config-*", "eslint-plugin-*", "prettier-plugin-*",
  "postcss", "autoprefixer", "tailwindcss", "@tailwindcss/postcss"]

/-- Whether an entry of the table stands for the package. -/
def isListed (table : List String) (package : String) : Bool :=
  table.any fun entry => packageMatches entry.toList package.toList

/-- `react` and `react-dom` in different versions. -/
def mismatchIssue (m : Manifest) : Option DependencyIssue := do
  let react := String.ofList (stripRange (← m.versionOf "react").toList)
  let reactDom := String.ofList (stripRange (← m.versionOf "react-dom").toList)
  if react = reactDom then none
  else some {
    kind := .versionMismatch
    package := some "react-dom"
    message := s!"react {react} and react-dom {reactDom} must be the same version"
    severity := .critical }

/-- A mark around names in messages. -/
def tick : String := String.singleton '\x60'

/-- Packages for tests and tools among those that the application needs. -/
def misplacedIssues (m : Manifest) : List DependencyIssue :=
  ((m.dependencies.map Prod.fst).filter (isListed toolingPackages)).map fun name =>
    { kind := .devDependencyMisplaced
      package := some name
      message :=
        s!"{tick}{name}{tick} is a test/tooling package listed in dependencies; move it to devDependencies"
      severity := .performance }

/-- A character of a word of a command line. -/
def isCommandWord (c : Char) : Bool := c.isAlphanum || ['-', '_', '@', '/', '.'].contains c

/-- Whether a script names the package. -/
def scriptMentions (script package : Text) : Bool := Text.mentionsWord isCommandWord script package

/-- The packages that the files import. -/
def importedPackages (files : List SourceFile) : List Text :=
  files.flatMap fun f => (imports f.content).filterMap fun r => rootPackage r.specifier

/-- Whether the package is imported, used without an import, or named in a script. -/
def isUsed (m : Manifest) (imported : List Text) (package : String) : Bool :=
  imported.contains package.toList || isListed implicitPackages package ||
    m.scripts.any fun s => scriptMentions s.2.toList package.toList

/-- A package of a section of the manifest that nothing uses. -/
def unusedIssue (role : String) (severity : Severity) (name : String) : DependencyIssue :=
  { kind := .unused
    package := some name
    message := s!"{role} {tick}{name}{tick} is never imported or used in a script"
    severity := severity }

/-- The packages that nothing uses, those of the application first. -/
def unusedIssues (m : Manifest) (files : List SourceFile) : List DependencyIssue :=
  let imported := importedPackages files
  let unused (packages : List (String × String)) :=
    (packages.map Prod.fst).filter fun name => !isUsed m imported name
  (unused m.dependencies).map (unusedIssue "dependency" .performance) ++
    (unused m.devDependencies).map (unusedIssue "devDependency" .bestPractice)

/-- The packages of which versions below the given one are too old. -/
def minimumMajors : List (String × Nat) := [("react", 18), ("next", 13)]

/-- A version that is too old. -/
def outdatedIssue (m : Manifest) (package : String) (minimum : Nat) : Option DependencyIssue := do
  let version ← m.versionOf package
  let major ← majorVersion version.toList
  if minimum ≤ major then none
  else some {
    kind := .outdated
    package := some package
    message := s!"{package} {version} is older than {minimum}"
    severity := .bestPractice }

/-- The versions that are too old. -/
def outdatedIssues (m : Manifest) : List DependencyIssue :=
  minimumMajors.filterMap fun (package, minimum) => outdatedIssue m package minimum

/-- What is wrong with the declared packages apart from their age. -/
def declaredIssues (m : Manifest) (files : List SourceFile) : List DependencyIssue :=
  (mismatchIssue m).toList ++ misplacedIssues m ++ unusedIssues m files

/-- Copies of React in several versions. -/
def duplicateIssue (versions : List String) : Option DependencyIssue :=
  if versions.length < 2 then none
  else
    let listed := ", ".intercalate versions
    some {
      kind := .duplicateInstall
      package := some "react"
      message := s!"{versions.length} copies of react are installed ({listed}); hooks break across copies"
      severity := .critical }

/-- The dependency issues of a project, and what went wrong in finding them. -/
structure DependencyReport where
  issues : List DependencyIssue
  diagnostics : List Diagnostic

namespace DependencyReport

/-- No issues. -/
def empty : DependencyReport := ⟨[], []⟩

/-- The report on installed copies of React. -/
def ofVersions : Except ToolFault (List String) → DependencyReport
  | .ok versions => ⟨(duplicateIssue versions).toList, []⟩
  | .error fault => ⟨[], [⟨"dependencies", fault.message⟩]⟩

/-- The report on a project: its declared packages, those that are installed if there are any, and their age. -/
def ofProject (box : Toolbox) (isInstalled : Bool) (manifest : Option Manifest) (files : List SourceFile) :
    DependencyReport :=
  match manifest with
  | none => empty
  | some m =>
    let installed := if isInstalled then ofVersions box.installedVersions else empty
    ⟨declaredIssues m files ++ installed.issues ++ outdatedIssues m, installed.diagnostics⟩

end DependencyReport

end Checkup
