import Checkup.Json.Record
import Checkup.Text.Lowercase

/-!
# Severities

* `Severity`: how much a finding weighs, the worst first.
* `Severity.parse`: the severity that a user names.
* `SeverityCounts`: how many items there are of each severity.
-/

namespace Checkup

/-- How much a finding weighs, the worst first. -/
inductive Severity where
  | critical
  | performance
  | bestPractice
  | info
  deriving DecidableEq, Repr

namespace Severity

/-- All severities, the worst first. -/
def all : List Severity := [critical, performance, bestPractice, info]

/-- The place in the order, the worst first. -/
def rank : Severity → Nat
  | critical => 0
  | performance => 1
  | bestPractice => 2
  | info => 3

/-- The points that one item takes off the score. -/
def penalty : Severity → Nat
  | critical => 10
  | performance => 3
  | bestPractice => 1
  | info => 0

/-- The name in reports and configuration. -/
def name : Severity → String
  | critical => "critical"
  | performance => "performance"
  | bestPractice => "best-practice"
  | info => "info"

/-- The heading of a group of findings. -/
def label : Severity → String
  | critical => "Critical"
  | performance => "Performance"
  | bestPractice => "Best practice"
  | info => "Info"

/-- The label inside a sentence. -/
def lowerLabel : Severity → String
  | critical => "critical"
  | performance => "performance"
  | bestPractice => "best practice"
  | info => "info"

/-- The names that a user may give, in lower case. -/
def spellings : List (String × Severity) :=
  [("critical", critical), ("performance", performance), ("perf", performance), ("best-practice", bestPractice),
    ("best_practice", bestPractice), ("bestpractice", bestPractice), ("info", info)]

/-- The severity that a user names; blanks around the name and the case of letters do not count. -/
def parse (name : String) : Option Severity :=
  spellings.lookup (String.ofList (Text.toLower (Text.trim name.toList)))

/-- The name as a value. -/
def toJson (s : Severity) : Json := .string s.name

/-- The severity of its name. -/
def ofTree : Json.Tree → Option Severity := Json.Tree.case? (all.map fun s => (s.name, s))

end Severity

/-- How many items there are of each severity. -/
structure SeverityCounts where
  critical : Nat
  performance : Nat
  bestPractice : Nat
  info : Nat
  deriving DecidableEq, Repr

namespace SeverityCounts

/-- The counts of a list of severities. -/
def ofList (ss : List Severity) : SeverityCounts :=
  ⟨ss.count .critical, ss.count .performance, ss.count .bestPractice, ss.count .info⟩

/-- The count of one severity. -/
def get (c : SeverityCounts) : Severity → Nat
  | .critical => c.critical
  | .performance => c.performance
  | .bestPractice => c.bestPractice
  | .info => c.info

/-- The number of all items. -/
def total (c : SeverityCounts) : Nat := c.critical + c.performance + c.bestPractice + c.info

/-- The counts as an object. -/
def toJson (c : SeverityCounts) : Json :=
  .object [("critical", .nat c.critical), ("performance", .nat c.performance),
    ("best_practice", .nat c.bestPractice), ("info", .nat c.info)]

end SeverityCounts

end Checkup
