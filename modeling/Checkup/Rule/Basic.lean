import Checkup.Finding
import Checkup.Text.Position

/-!
# Rules

A rule looks at one file and reports findings, or fails on it. It looks only at files that hold some words, its clues,
so that most files are passed over quickly.

* `Rule.detect`: what a rule finds in a file.
* `RuleInfo.rule`: the rule from a function that says which spots to report, so that each finding has the rule's name
  and severity and the path of the file.
-/

namespace Checkup

/-- How much following a rule matters. -/
inductive Impact where
  | critical
  | high
  | mediumHigh
  | medium
  | lowMedium
  | low
  deriving DecidableEq, Repr

/-- The name in the list of rules. -/
def Impact.name : Impact → String
  | critical => "CRITICAL"
  | high => "HIGH"
  | mediumHigh => "MEDIUM-HIGH"
  | medium => "MEDIUM"
  | lowMedium => "LOW-MEDIUM"
  | low => "LOW"

/-- The description of a rule. -/
structure RuleInfo where
  id : String
  title : String
  impact : Impact
  severity : Severity
  description : String
  referenceUrl : String

/-- Whether the string occurs in the text. -/
def Text.has (t : Text) (s : String) : Bool := occurs s.toList t

/-- A rule: its description, its clues, and what a look at a file with a given path and content finds. -/
structure Rule where
  info : RuleInfo
  /-- lists of words; of each of them a file has to hold one -/
  clues : List (List String)
  inspect : String → Text → Except String (List Finding)

namespace Rule

/-- Whether the rule looks at a file with the content. -/
def hasClues (r : Rule) (content : Text) : Bool := r.clues.all fun words => words.any content.has

/-- What the rule finds in a file with a given path and content. -/
def detect (r : Rule) (path : String) (content : Text) : Except String (List Finding) :=
  if r.hasClues content then r.inspect path content else .ok []

end Rule

/-- A place in a file and what to say about it. -/
structure Spot where
  line : Nat
  column : Nat
  message : String
  help : String

namespace Spot

/-- The spot at a byte offset. -/
def atOffset (content : Text) (offset : Nat) (message help : String) : Spot :=
  let (line, column) := Text.lineCol content offset
  ⟨line, column, message, help⟩

/-- The spot at a byte offset inside a line. -/
def inLine (line offset : Nat) (message help : String) : Spot := ⟨line, offset + 1, message, help⟩

/-- Whether a spot comes no later in the file than another. -/
def notAfter (a b : Spot) : Bool := a.line < b.line || (a.line == b.line && a.column ≤ b.column)

/-- The spots in the order of the file; spots at one place keep their order. -/
def sort (spots : List Spot) : List Spot := spots.mergeSort notAfter

end Spot

namespace RuleInfo

/-- The finding that the rule reports at a spot. -/
def finding (info : RuleInfo) (path : String) (s : Spot) : Finding :=
  { severity := info.severity
    ruleId := info.id
    message := s.message
    help := some s.help
    location := ⟨path, s.line, s.column⟩
    referenceUrl := some info.referenceUrl }

/-- The finding about a whole file, or about the project if the path is empty. -/
def fileFinding (info : RuleInfo) (path message help : String) : Finding := info.finding path ⟨0, 0, message, help⟩

/-- The rule that looks at files with the given clues and reports the given spots. -/
def rule (info : RuleInfo) (clues : List (List String)) (spots : String → Text → List Spot) : Rule :=
  ⟨info, clues, fun path content => .ok ((spots path content).map (info.finding path))⟩

end RuleInfo

end Checkup
