import Checkup.Finding
import Checkup.Tool.Basic

/-!
# The linter

`oxlint` reports problems under codes such as `eslint-plugin-react(jsx-key)`: a plugin, and a rule in brackets.

* `lintSeverity`: the severity of a code; what the table does not know is for information only.
* `relativePath`: the path of a file as seen from the root of the scan.
* `LintReport.parse`: the findings in what the linter prints.
* `Toolbox.lint`: runs the linter.
-/

namespace Checkup

open Json (Tree)

/-- The name of the linter. -/
def linterName : String := "oxlint"

/-- The rules that count as critical, by plugin. -/
def criticalLints : List (String × String) := [
  ("react-hooks", "rules-of-hooks"), ("react", "jsx-key"), ("react", "no-direct-mutation-state"),
  ("react", "jsx-no-duplicate-props"), ("react", "jsx-no-undef"), ("react", "no-children-prop"),
  ("react", "jsx-no-target-blank"), ("react", "no-string-refs"), ("nextjs", "no-html-link-for-pages"),
  ("nextjs", "no-document-import-in-page"), ("nextjs", "no-head-import-in-document"),
  ("nextjs", "no-script-component-in-head"), ("import", "no-cycle")]

/-- The rules that are about performance, by plugin. -/
def performanceLints : List (String × String) := [
  ("react-hooks", "exhaustive-deps"), ("react", "no-array-index-key"), ("react-perf", "jsx-no-new-object-as-prop"),
  ("react-perf", "jsx-no-new-array-as-prop"), ("react-perf", "jsx-no-new-function-as-prop"),
  ("react-perf", "jsx-no-jsx-as-prop"), ("nextjs", "no-img-element"), ("nextjs", "no-sync-scripts"),
  ("nextjs", "no-css-tags"), ("nextjs", "google-font-display"), ("nextjs", "no-page-custom-font"),
  ("nextjs", "no-before-interactive-script-outside-document")]

/-- The rules that are about good practice, by plugin. -/
def practiceLints : List (String × String) := [
  ("react", "no-danger"), ("react", "self-closing-comp"), ("react", "jsx-no-useless-fragment"),
  ("react", "no-unknown-property"), ("react", "void-dom-elements-no-children"), ("jsx-a11y", "alt-text"),
  ("jsx-a11y", "anchor-is-valid"), ("jsx-a11y", "anchor-has-content"),
  ("jsx-a11y", "click-events-have-key-events"), ("jsx-a11y", "no-autofocus"), ("jsx-a11y", "html-has-lang"),
  ("jsx-a11y", "iframe-has-title"), ("jsx-a11y", "label-has-associated-control"),
  ("jsx-a11y", "role-has-required-aria-props"), ("import", "no-duplicates"), ("import", "no-self-import"),
  ("nextjs", "no-head-element"), ("nextjs", "inline-script-id"), ("nextjs", "next-script-for-ga")]

/-- The plugin and the rule of a code. A code without a bracket is a rule of no plugin. -/
def splitLintCode (code : Text) : Text × Text :=
  match code.dropWhile (· != '(') with
  | [] => ([], code)
  | _ :: rest =>
    let plugin := Text.firstPiece (· == '(') code
    ((Text.after? "eslint-plugin-".toList plugin).getD plugin, (Text.before? [')'] rest).getD rest)

/-- The severity of a code. -/
def lintSeverity (code : Text) : Severity :=
  let (plugin, rule) := splitLintCode code
  let plugin := if plugin = "next".toList then "nextjs".toList else plugin
  let key := (String.ofList plugin, String.ofList rule)
  if criticalLints.contains key then .critical
  else if performanceLints.contains key then .performance
  else if practiceLints.contains key then .bestPractice
  else .info

/-- Drops `./` at the start as often as it stands there. -/
def dropDotSlash : Text → Text
  | '.' :: '/' :: t => dropDotSlash t
  | t => t

/-- The path with slashes as separators, without the root in front of it. -/
def relativePath (root fileName : Text) : Text :=
  let slashes (t : Text) : Text := t.map fun c => if c = '\\' then '/' else c
  let path := slashes fileName
  let below := (Text.after? (Text.trimEndBy (· == '/') (slashes root)) path).map fun t => t.dropWhile (· == '/')
  dropDotSlash (below.getD path)

/-- A problem that the linter reports. -/
structure Lint where
  code : String
  message : String
  help : Option String
  url : Option String
  fileName : String
  line : Nat
  column : Nat

namespace Lint

/-- The line and column of an object. -/
def spanOfTree (v : Tree) : Option (Nat × Nat) := do
  let r ← v.record? ["line", "column"]
  return (← r.orElse "line" 0 Tree.word32?, ← r.orElse "column" 0 Tree.word32?)

/-- The line and column of a label. -/
def labelOfTree (v : Tree) : Option (Nat × Nat) := do
  let r ← v.record? ["span"]
  r.required "span" spanOfTree

/-- The problem of an object. It is where its first label is. -/
def ofTree (v : Tree) : Option Lint := do
  let r ← v.record? ["code", "message", "help", "url", "filename", "labels"]
  let code ← r.orElse "code" none (Tree.nullable? Tree.string?)
  let message ← r.required "message" Tree.string?
  let help ← r.orElse "help" none (Tree.nullable? Tree.string?)
  let url ← r.orElse "url" none (Tree.nullable? Tree.string?)
  let fileName ← r.orElse "filename" "" Tree.string?
  let labels ← r.orElse "labels" [] (Tree.list? labelOfTree)
  let (line, column) := labels.head?.getD (0, 0)
  return ⟨code.getD "", message, help, url, fileName, line, column⟩

/-- The finding that the problem amounts to. It has the name of the linter if the code names no rule. -/
def finding (root : String) (l : Lint) : Finding :=
  let rule := (splitLintCode l.code.toList).2
  { severity := lintSeverity l.code.toList
    ruleId := if rule.isEmpty then linterName else String.ofList rule
    message := l.message
    help := l.help
    location := ⟨String.ofList (relativePath root.toList l.fileName.toList), l.line, l.column⟩
    referenceUrl := l.url }

end Lint

/-- The findings of the linter, and how many files it looked at: zero if it does not say. -/
structure LintReport where
  findings : List Finding
  fileCount : Nat

namespace LintReport

/-- No findings. -/
def empty : LintReport := ⟨[], 0⟩

/-- The report of an object. -/
def ofTree (root : String) (v : Tree) : Option LintReport := do
  let r ← v.record? ["diagnostics", "number_of_files"]
  let lints ← r.orElse "diagnostics" [] (Tree.list? Lint.ofTree)
  let fileCount ← r.orElse "number_of_files" 0 Tree.word64?
  return ⟨lints.map (Lint.finding root), fileCount⟩

/-- The report that the linter prints about the directory `root`. -/
def parse (root output : String) : Except ToolFault LintReport :=
  if Text.isBlank output.toList then .error (.emptyOutput linterName)
  else
    match (Tree.parse output.toList).bind (ofTree root) with
    | some report => .ok report
    | none => .error (.malformed linterName)

end LintReport

/-- The command that runs the linter. -/
def lintCommand (m : PackageManager) : Command :=
  [m.runner, linterName, "--format=json", "--react-plugin", "--react-perf-plugin", "--nextjs-plugin",
    "--jsx-a11y-plugin", "--import-plugin", "."]

/-- Runs the linter on the directory `root`. -/
def Toolbox.lint (box : Toolbox) (root : String) : Except ToolFault LintReport :=
  match box.manager with
  | none => .error (.notFound "bun or npm")
  | some m => (box.run linterName (lintCommand m)).bind (LintReport.parse root)

end Checkup
