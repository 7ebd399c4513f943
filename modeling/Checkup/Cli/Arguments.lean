import Checkup.Report.Format

/-!
# Arguments of the command line

`Arguments.parse` reads the words behind the name of the program. A word that starts with a hyphen is an option; `--`
makes all further words plain ones, and the first plain word is the path of the project. The value of an option is in
the same word or in the next one.

A value waits until the word behind it turns out to be of use, so a word that cannot be used is reported before a bad
value in front of it.

* `Arguments`: what the words say.
* `UsageStop`: why the words say nothing.
* `Reader.step`: one word.
-/

namespace Checkup

/-- How much a program tells about its work. -/
inductive LogLevel where
  | error
  | warn
  | info
  | debug
  | trace
  deriving DecidableEq, Repr

namespace LogLevel

/-- All levels, the quietest first. -/
def all : List LogLevel := [error, warn, info, debug, trace]

/-- The name of the level. -/
def name : LogLevel → String
  | error => "error"
  | warn => "warn"
  | info => "info"
  | debug => "debug"
  | trace => "trace"

/-- The level of a name. -/
def parse (s : String) : Option LogLevel := all.find? fun l => l.name == s

end LogLevel

/-- What the words of a command line say. -/
structure Arguments where
  path : String
  format : ReportFormat
  /-- the severities whose findings are listed; none stands for all -/
  severities : List Severity
  /-- where a report in Markdown goes -/
  markdown : Option String
  showAll : Bool
  failOn : Option Severity
  noLint : Bool
  noAudit : Bool
  listRules : Bool
  logLevel : LogLevel
  deriving DecidableEq, Repr

/-- The arguments if there are no words. -/
def Arguments.standard : Arguments := ⟨".", .text, [], none, false, none, false, false, false, .warn⟩

/-- Why the words do not lead to a run. -/
inductive UsageStop where
  /-- a word that is no option, or one path too many -/
  | unknownWord
  /-- a value that is missing, empty or none of those allowed -/
  | badValue
  /-- a value that is no severity -/
  | badSeverity
  /-- an option that may be given once was given twice -/
  | repeated
  /-- a value for an option that takes none -/
  | needlessValue
  /-- the user asks for help -/
  | help
  /-- the user asks for the version -/
  | version
  deriving DecidableEq, Repr

/-- The exit code of the program. An answer to a question is no failure. -/
def UsageStop.exitCode : UsageStop → Nat
  | help => 0
  | version => 0
  | _ => 2

/-- What takes a value: an option, or the path, which is a value without an option. -/
inductive Slot where
  | path
  | format
  | severity
  | markdown
  | failOn
  | logLevel
  deriving DecidableEq, Repr

/-- Whether the slot takes any number of values, one after the other. -/
def Slot.isOpen (s : Slot) : Bool := s == .severity

/-- An option that is on or off. -/
inductive Switch where
  | showAll
  | noLint
  | noAudit
  | listRules
  deriving DecidableEq, Repr

/-- An option. -/
inductive OptionKind where
  | slot (s : Slot)
  | switch (s : Switch)
  | help
  | version
  deriving DecidableEq, Repr

namespace OptionKind

/-- The names of options, to be written behind two hyphens. -/
def names : List (String × OptionKind) := [
  ("format", slot .format), ("severity", slot .severity), ("markdown", slot .markdown), ("all", switch .showAll),
  ("fail-on", slot .failOn), ("no-lint", switch .noLint), ("no-audit", switch .noAudit),
  ("list-rules", switch .listRules), ("log-level", slot .logLevel), ("help", help), ("version", version)]

/-- The letters of options, to be written behind one hyphen. -/
def letters : List (Char × OptionKind) := [('f', slot .format), ('h', help), ('V', version)]

end OptionKind

namespace Arguments

/-- Whether a switch is on. -/
def isOn (a : Arguments) : Switch → Bool
  | .showAll => a.showAll
  | .noLint => a.noLint
  | .noAudit => a.noAudit
  | .listRules => a.listRules

/-- Turns a switch on. -/
def turnOn (a : Arguments) : Switch → Arguments
  | .showAll => { a with showAll := true }
  | .noLint => { a with noLint := true }
  | .noAudit => { a with noAudit := true }
  | .listRules => { a with listRules := true }

/-- A severity of its name. -/
def severity (name : String) : Except UsageStop Severity :=
  match Severity.parse name with
  | some s => .ok s
  | none => .error .badSeverity

/-- A value that is allowed. -/
def allowed {α : Type} : Option α → Except UsageStop α
  | some v => .ok v
  | none => .error .badValue

/-- A path, which has to be something. -/
def pathValue (v : String) : Except UsageStop String := if v.isEmpty then .error .badValue else .ok v

/-- The formats for a terminal and for other programs. -/
def formatValue (v : String) : Except UsageStop ReportFormat :=
  allowed ([ReportFormat.text, ReportFormat.json].find? fun f => f.name == v)

/-- Puts a value into a slot. Severities stand one after the other with commas between them. -/
def fill (a : Arguments) (v : String) : Slot → Except UsageStop Arguments
  | .path => return { a with path := ← pathValue v }
  | .format => return { a with format := ← formatValue v }
  | .severity => do
    let names := (Text.split (· == ',') v.toList).map String.ofList
    return { a with severities := a.severities ++ (← names.mapM severity) }
  | .markdown => return { a with markdown := some (← pathValue v) }
  | .failOn => return { a with failOn := some (← severity v) }
  | .logLevel => return { a with logLevel := ← allowed (LogLevel.parse v) }

end Arguments

/-- A slot whose value is still to be looked at, or even to come. -/
structure Waiting where
  slot : Slot
  value : Option String
  deriving DecidableEq, Repr

/-- The state of reading: what the words said up to here. -/
structure Reader where
  arguments : Arguments
  /-- the slots that have a value -/
  filled : List Slot
  waiting : Option Waiting
  /-- whether a plain word was taken as the path -/
  hasPath : Bool
  /-- whether all words are plain -/
  onlyPlain : Bool
  deriving DecidableEq, Repr

namespace Reader

/-- The state before the first word. -/
def start : Reader := ⟨.standard, [], none, false, false⟩

/-- Puts a value into a slot that is free. -/
def fill (r : Reader) (w : Waiting) : Except UsageStop Reader :=
  match w.value with
  | none => .error .badValue
  | some v =>
    if !w.slot.isOpen && r.filled.contains w.slot then .error .repeated
    else do return { r with arguments := ← r.arguments.fill v w.slot, filled := w.slot :: r.filled }

/-- Looks at the value that waits. -/
def settle (r : Reader) : Except UsageStop Reader :=
  match r.waiting with
  | none => .ok r
  | some w => ({ r with waiting := none }).fill w

/-- Takes a plain word as the path. -/
def takePath (r : Reader) (word : String) : Except UsageStop Reader :=
  if r.hasPath then .error .unknownWord
  else do return { ← r.settle with waiting := some ⟨.path, some word⟩, hasPath := true }

/-- Takes an option and the value in its word, if there is one. -/
def takeOption (r : Reader) (value : Option String) : OptionKind → Except UsageStop Reader
  | .slot s => do
    let r ← r.settle
    if value.isSome then r.fill ⟨s, value⟩ else return { r with waiting := some ⟨s, none⟩ }
  | .switch s =>
    if value.isSome then .error .needlessValue
    else do
      let r ← r.settle
      if r.arguments.isOn s then .error .repeated else return { r with arguments := r.arguments.turnOn s }
  | .help => if value.isSome then .error .needlessValue else r.settle >>= fun _ => .error .help
  | .version => if value.isSome then .error .needlessValue else r.settle >>= fun _ => .error .version

/-- Takes the option with a name, which may have a value behind an equals sign. -/
def takeName (r : Reader) (t : Text) : Except UsageStop Reader :=
  let name := t.takeWhile (· != '=')
  let value := match t.drop name.length with
    | [] => none
    | _ :: v => some (String.ofList v)
  match OptionKind.names.lookup (String.ofList name) with
  | none => .error .unknownWord
  | some o => r.takeOption value o

/-- The value behind the letter of an option, with or without an equals sign between them. -/
def valueBehind : Text → Option String
  | [] => none
  | '=' :: v => some (String.ofList v)
  | v => some (String.ofList v)

/-- Takes the option with a letter. Only one that takes a value looks at what is behind it: the others end the
reading. -/
def takeLetter (r : Reader) (c : Char) (t : Text) : Except UsageStop Reader :=
  match OptionKind.letters.lookup c with
  | none => .error .unknownWord
  | some (.slot s) => r.takeOption (valueBehind t) (.slot s)
  | some o => r.takeOption none o

/-- Takes a plain word: the value that an option waits for, or else the path. -/
def takePlain (r : Reader) (word : String) : Except UsageStop Reader :=
  match r.waiting with
  | some ⟨s, none⟩ => .ok { r with waiting := some ⟨s, some word⟩ }
  | _ => r.takePath word

/-- Takes a word. -/
def step (r : Reader) (word : String) : Except UsageStop Reader :=
  if r.onlyPlain then r.takePath word
  else
    match word.toList with
    | ['-', '-'] => .ok { r with onlyPlain := true }
    | '-' :: '-' :: t => r.takeName t
    | '-' :: c :: t => r.takeLetter c t
    | _ => r.takePlain word

end Reader

/-- The arguments that the words of a command line say. -/
def Arguments.parse (words : List String) : Except UsageStop Arguments := do
  let r ← words.foldlM Reader.step Reader.start
  return (← r.settle).arguments

end Checkup
