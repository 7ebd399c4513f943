import Checkup.Rule.Catalog
import Checkup.Rule.Suppression
import Checkup.Source.File

/-!
# Sweeps

A sweep runs every rule over every file. A rule that fails on a file leaves a diagnostic and nothing else.

* `Sweep.ofFile`: what the rules find in one file.
* `Sweep.ofFiles`: what they find in all files, in the order of the files and then of the rules.
-/

namespace Checkup

/-- What rules found, and where they failed. -/
structure Sweep where
  findings : List Finding
  diagnostics : List Diagnostic

namespace Sweep

/-- What a rule said about a file: its id, and its findings or why it failed. -/
abbrev Outcome := String × Except String (List Finding)

/-- The findings of an outcome. -/
def findingsOf : Outcome → List Finding
  | (_, .ok findings) => findings
  | (_, .error _) => []

/-- The diagnostic for an outcome that is a failure. -/
def fault? (path : String) : Outcome → Option Diagnostic
  | (_, .ok _) => none
  | (id, .error message) => some ⟨s!"rule:{id}", s!"{path}: {message}"⟩

/-- What rules find in a file, unless the whole file is silenced. -/
def ofFile (rules : List Rule) (file : SourceFile) : Sweep :=
  if isFileSuppressed file.content then ⟨[], []⟩
  else
    let outcomes := rules.map fun r => (r.info.id, r.detect file.path file.content)
    ⟨keepUnsuppressed file.content (outcomes.flatMap findingsOf), outcomes.filterMap (fault? file.path)⟩

/-- What rules find in files. -/
def ofFiles (rules : List Rule) (files : List SourceFile) : Sweep :=
  let sweeps := (sortByPath files).map (ofFile rules)
  ⟨sweeps.flatMap Sweep.findings, sweeps.flatMap Sweep.diagnostics⟩

end Sweep

end Checkup
