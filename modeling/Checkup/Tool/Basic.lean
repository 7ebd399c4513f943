import Checkup.Text.Basic

/-!
# Tools

A scan asks other programs for what it cannot find out by itself. `Toolbox` says which of them there are and what they
print; `ToolFault` says why a tool is of no help.

* `Toolbox.run`: runs a command and takes what it prints.
* `jsonObject?`: the part of an output that may be a JSON object; tools print other things around it.
-/

namespace Checkup

/-- The package manager that runs tools. -/
inductive PackageManager where
  | bun
  | npm
  deriving DecidableEq, Repr

/-- The program of the package manager. -/
def PackageManager.program : PackageManager → String
  | bun => "bun"
  | npm => "npm"

/-- The program that runs the tools of packages. -/
def PackageManager.runner : PackageManager → String
  | bun => "bunx"
  | npm => "npx"

/-- Why a tool is of no help. -/
inductive ToolFault where
  | notFound (tool : String)
  | timedOut (tool : String) (seconds : Nat)
  | failed (tool reason : String)
  | emptyOutput (tool : String)
  | malformed (tool : String)
  deriving DecidableEq, Repr

/-- The message about a fault. -/
def ToolFault.message : ToolFault → String
  | notFound tool => s!"{tool} not found; install it or disable it in react-health.toml"
  | timedOut tool seconds => s!"{tool} timed out after {seconds}s"
  | failed tool reason => s!"failed to run {tool}: {reason}"
  | emptyOutput tool => s!"{tool} produced no output"
  | malformed tool => s!"could not parse {tool} output: malformed JSON"

/-- A program and its arguments. -/
abbrev Command := List String

/-- The command as it is typed. -/
def Command.text (c : Command) : String := " ".intercalate c

/-- The package manager that there is, and what programs print: nothing at all if there is no such program. -/
structure Toolbox where
  manager : Option PackageManager
  output? : Command → Option String

namespace Toolbox

/-- A toolbox without any program. -/
def empty : Toolbox := ⟨none, fun _ => none⟩

/-- Runs a command on behalf of a tool and gives what it prints. -/
def run (box : Toolbox) (tool : String) (command : Command) : Except ToolFault String :=
  if command.isEmpty then .error (.failed tool "empty command")
  else
    match box.output? command with
    | none => .error (.notFound tool)
    | some output => .ok output

end Toolbox

/-- The part of a text from the first opening brace to the last closing one. -/
def jsonObject? (t : Text) : Option Text :=
  match t.dropWhile (· != '\x7b') with
  | [] => none
  | object =>
    match Text.trimEndBy (· != '\x7d') object with
    | [] => none
    | trimmed => some trimmed

end Checkup
