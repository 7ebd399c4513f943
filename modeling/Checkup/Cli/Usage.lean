import Checkup.Cli.Arguments

/-!
# Help for the command line

What the program says about its arguments: the text of `--help`, and a sentence on words that do not lead to a run.
-/

namespace Checkup

/-- The name of the program. -/
def programName : String := "react-health"

/-- The version of the program. -/
def programVersion : String := "0.3.0"

/-- The options and what they do. -/
def usageRows : List (String × String) := [
  ("-f, --format <FORMAT>", "the format of the report: text or json"),
  ("--severity <SEVERITY>", "list only findings of these severities"),
  ("--markdown <FILE>", "write a report in Markdown as well"),
  ("--all", "list every finding instead of the first 10 per severity"),
  ("--fail-on <SEV>", "exit with 1 if any item has exactly this severity"),
  ("--no-lint", "do not run the linter"),
  ("--no-audit", "do not run the security audit"),
  ("--list-rules", "list the rules and exit"),
  ("--log-level <LEVEL>", "error, warn, info, debug or trace"),
  ("-h, --help", "print this help"),
  ("-V, --version", "print the version")]

/-- How the program is called. -/
def usageLine : String := s!"Usage: {programName} [OPTIONS] [PATH]"

/-- The text of `--help`. -/
def usageText : String :=
  let rows := usageRows.map fun (option, meaning) => s!"  {option}: {meaning}\n"
  let options := String.join rows
  s!"Health score for React and Next.js codebases\n\n{usageLine}\n\nOptions:\n{options}"

namespace UsageStop

/-- Whether the user asked a question; what is said then is no complaint. -/
def isQuestion (s : UsageStop) : Bool := s.exitCode == 0

/-- What is said to the user. -/
def message : UsageStop → String
  | unknownWord => s!"error: unexpected argument\n\n{usageLine}\n"
  | badValue => s!"error: a value is missing or not allowed\n\n{usageLine}\n"
  | badSeverity => s!"error: a value is no severity\n\n{usageLine}\n"
  | repeated => s!"error: an option was given twice\n\n{usageLine}\n"
  | needlessValue => s!"error: a value for an option that takes none\n\n{usageLine}\n"
  | help => usageText
  | version => s!"{programName} {programVersion}\n"

end UsageStop

end Checkup
