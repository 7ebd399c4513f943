import Checkup.Report.Data
import Checkup.Report.Markdown
import Checkup.Report.Terminal

/-!
# Formats of reports

`ReportFormat` names the formats, and `ReportView.write` writes a view in one of them.
-/

namespace Checkup

/-- A format of reports. -/
inductive ReportFormat where
  | text
  | json
  | markdown
  deriving DecidableEq, Repr

namespace ReportFormat

/-- The name of the format. -/
def name : ReportFormat → String
  | text => "text"
  | json => "json"
  | markdown => "markdown"

/-- The names that a user may give, in lower case. -/
def spellings : List (String × ReportFormat) :=
  [("text", text), ("txt", text), ("terminal", text), ("json", json), ("markdown", markdown), ("md", markdown)]

/-- The format that a user names. The case of letters does not count. -/
def parse (name : String) : Option ReportFormat :=
  spellings.lookup (String.ofList (Text.toLower name.toList))

end ReportFormat

/-- The view in a format. Text may be in color, and Markdown says when it was written. -/
def ReportView.write (v : ReportView) (format : ReportFormat) (useColor : Bool) (time : String) : String :=
  match format with
  | .text => terminalReport useColor v
  | .json => dataReport v
  | .markdown => markdownReport time v

end Checkup
