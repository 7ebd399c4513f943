import Checkup.Report.Style
import Checkup.Rule.Catalog

/-!
# Lists of rules

What the rules are, as text in two lines each and as JSON for other programs.

* `ruleListText`, `ruleListData`
-/

namespace Checkup

/-- The text with blanks behind it up to a width. -/
def padRight (width : Nat) (s : String) : String :=
  s ++ String.ofList (List.replicate (width - s.toList.length) ' ')

namespace RuleInfo

/-- The width of the column of names. -/
def idWidth : Nat := 32

/-- The rule in two lines. The name stands in a column, and its style reaches to the end of the column. -/
def listing (useColor : Bool) (info : RuleInfo) : String :=
  let id := Style.bold.paint useColor (padRight idWidth info.id)
  let impact := padRight 12 info.impact.name
  let severity := padRight 14 info.severity.name
  let margin := padRight idWidth ""
  let description := Style.dim.paint useColor info.description
  s!"{id} {impact} {severity} {info.title}\n{margin} {description}\n"

/-- The rule as a value. -/
def toJson (info : RuleInfo) : Json :=
  .object [("description", .string info.description), ("id", .string info.id), ("impact", .string info.impact.name),
    ("reference_url", .string info.referenceUrl), ("severity", info.severity.toJson), ("title", .string info.title)]

end RuleInfo

/-- The list for a reader at a terminal. -/
def ruleListText (useColor : Bool) (rules : List Rule) : String :=
  let listings := String.join (rules.map fun r => r.info.listing useColor)
  s!"{listings}\n{rules.length} rules"

/-- The list for other programs. -/
def ruleListData (rules : List Rule) : String :=
  String.ofList <| Json.pretty <|
    .object [("count", .nat rules.length), ("rules", .array (rules.map fun r => r.info.toJson))]

end Checkup
