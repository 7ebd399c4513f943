import Checkup.Project.Folder
import Checkup.Severity
import Checkup.Toml.Document

/-!
# Settings

What `react-health.toml` in the root of a project sets. A file that is not there, is no TOML or has values of the
wrong kind sets nothing.

* `Settings.ofToml`, `Settings.load`: the settings of a document and of a project.
* `ConfigFault`: what a user can get wrong so that there is no scan.
-/

namespace Checkup

/-- Input of the user that makes a scan impossible. -/
inductive ConfigFault where
  | unknownSeverity (name : String)
  | missingRoot (root : String)
  | invalidPattern (pattern reason : String)
  deriving DecidableEq, Repr

/-- The message about a fault. -/
def ConfigFault.message : ConfigFault → String
  | unknownSeverity name =>
    s!"unknown severity '{name}' (expected one of: critical, performance, best-practice, info)"
  | missingRoot root => s!"scan root '{root}' does not exist or is not a directory"
  | invalidPattern pattern reason => s!"invalid ignore pattern '{pattern}': {reason}"

namespace Toml

/-- The fields of a record with the given names: the entries of a table, or in order the items of an array, of which
more are ignored. A date has none of them. -/
def fields? (names : List String) : Toml → Option (List (String × Toml))
  | table _ entries => some entries
  | array items => some (names.zip items)
  | tables items => some (names.zip items)
  | datetime => some []
  | _ => none

/-- A field, or a default if it is not there. -/
def field {α : Type} (fields : List (String × Toml)) (name : String) (default : α) (read : Toml → Option α) :
    Option α :=
  match fields.lookup name with
  | none => some default
  | some v => read v

/-- A string. -/
def string? : Toml → Option String
  | string s => some s
  | _ => none

/-- A list of strings. -/
def strings? : Toml → Option (List String)
  | array items => items.mapM string?
  | tables items => items.mapM string?
  | _ => none

/-- A truth value. -/
def bool? : Toml → Option Bool
  | bool b => some b
  | _ => none

/-- A natural number. -/
def nat? : Toml → Option Nat
  | integer n => if n < 0 then none else some n.toNat
  | _ => none

end Toml

/-- The settings of a project. -/
structure Settings where
  /-- the rules that do not run -/
  disabledRules : List String
  /-- patterns of the paths that are passed over -/
  ignoredPaths : List String
  /-- how many lines a file may have -/
  largeFileLines : Nat
  runLinter : Bool
  runAudit : Bool
  /-- the name of the severity of which nothing may be found -/
  failOn : Option String
  deriving DecidableEq, Repr

namespace Settings

/-- The name of the file. -/
def fileName : String := "react-health.toml"

/-- The settings that hold unless others are given. -/
def standard : Settings := ⟨[], [], 300, true, true, none⟩

/-- The value of a field in a section, or a default if there is no such section or field. -/
def inSection {α : Type} (names : List String) (name : String) (default : α) (read : Toml → Option α)
    (section? : Option Toml) : Option α :=
  match section? with
  | none => some default
  | some v => (v.fields? names).bind fun fields => Toml.field fields name default read

/-- The settings of a document. -/
def ofToml (v : Toml) : Option Settings := do
  let sections ← v.fields? ["rules", "ignore", "thresholds", "external", "defaults"]
  let get := fun name => sections.lookup name
  return {
    disabledRules := ← inSection ["disabled"] "disabled" standard.disabledRules Toml.strings? (get "rules")
    ignoredPaths := ← inSection ["paths"] "paths" standard.ignoredPaths Toml.strings? (get "ignore")
    largeFileLines :=
      ← inSection ["large_file_lines"] "large_file_lines" standard.largeFileLines Toml.nat? (get "thresholds")
    runLinter := ← inSection ["linter", "audit"] "linter" standard.runLinter Toml.bool? (get "external")
    runAudit := ← inSection ["linter", "audit"] "audit" standard.runAudit Toml.bool? (get "external")
    failOn := ← inSection ["fail_on"] "fail_on" standard.failOn (fun v => v.string?.map some) (get "defaults") }

/-- The settings of a text. -/
def parse (t : Text) : Option Settings := (Toml.parse t).bind ofToml

/-- The settings of the project in a directory. -/
def load (f : Folder) (root : String) : Settings :=
  (((f.fileAt? (joinPath root fileName)).bind Utf8.text?).bind parse).getD standard

/-- Whether a rule does not run. -/
def isDisabled (s : Settings) (rule : String) : Bool := s.disabledRules.contains rule

/-- The severity of which nothing may be found. -/
def failOnSeverity (s : Settings) : Except ConfigFault (Option Severity) :=
  match s.failOn with
  | none => .ok none
  | some name =>
    match Severity.parse name with
    | some severity => .ok (some severity)
    | none => .error (.unknownSeverity name)

end Settings

end Checkup
