import Checkup.Pattern.Class
import Checkup.Rule.Basic
import Checkup.Source.Line
import Checkup.Source.Path

/-!
# Rules about plain code

Searches inside iterations, copies through text, messages for debugging, and passes that could be one.
-/

namespace Checkup

open Pattern

/-! ## Searches inside iterations -/

/-- A call that iterates. -/
def iterateCall : Pattern := lit "." ++ alt (lit "map") (lit "forEach") ++ lit "("

/-- A call that searches. Group 1 is its name. -/
def searchCall : Pattern := lit "." ++ group 1 (anyOf [lit "find", lit "filter", lit "findIndex"]) ++ lit "("

/-- Describes `indexMaps`. -/
def indexMapsInfo : RuleInfo where
  id := "js-index-maps"
  title := "Linear search inside a loop"
  impact := .lowMedium
  severity := .performance
  description := "find/filter inside map/forEach is O(n*m); build a Map keyed by id first."
  referenceUrl := "https://developer.mozilla.org/en-US/docs/Web/JavaScript/Reference/Global_Objects/Map"

/-- Reports a search behind an iteration on one line. -/
def indexMaps : Rule := indexMapsInfo.rule [] fun _ content =>
  (codeLines content).filterMap fun (n, line) => do
    let outer ← iterateCall.find line
    let inner ← searchCall.find (Text.dropBytes outer.stop line)
    let method ← inner.group? 1
    return Spot.inLine n outer.start
      s!"`.{String.ofList method.text}()` runs once per element of the outer iteration"
      "Index the inner array once with `new Map(items.map(i => [i.id, i]))` and look up by key"

/-- The start of a call of `filter` up to the arrow of its function, whose parameter is group 1. -/
def filterStart : Pattern :=
  seqAll [lit ".filter(", blanks, opt (lit "("), blanks, group 1 name, blanks,
    opt (lit ":" ++ many (· != ')')), opt (lit ")"), blanks, lit "=>"]

/-- A call of `includes`: what it searches (group 1) and what for (group 2). -/
def includesCall : Pattern :=
  seqAll [group 1 dottedName, lit ".includes(", blanks, group 2 dottedName]

/-- What a function with the given parameter searches for a part of its parameter. -/
def searchedFor (param callback : Text) : Option Text :=
  (includesCall.findAll callback).findSome? fun m => do
    let receiver ← m.group? 1
    let arg ← m.group? 2
    let root := Text.firstPiece (· == '.')
    if root arg.text == param && root receiver.text != param then some receiver.text else none

/-- Describes `setLookups`. -/
def setLookupsInfo : RuleInfo where
  id := "js-set-lookups"
  title := "Array.includes inside filter"
  impact := .lowMedium
  severity := .performance
  description := "Membership checks against an array inside filter are O(n*m); use a Set."
  referenceUrl :=
    "https://developer.mozilla.org/en-US/docs/Web/JavaScript/Reference/Global_Objects/Set/has"

/-- Reports a list that is searched for each filtered element. -/
def setLookups : Rule := setLookupsInfo.rule [[".includes("]] fun _ content =>
  (codeLines content).filterMap fun (n, line) => do
    let m ← filterStart.find line
    let param ← m.group? 1
    let receiver ← searchedFor param.text (Text.dropBytes m.stop line)
    let receiver := String.ofList receiver
    return Spot.inLine n m.start s!"`{receiver}.includes()` scans the array for every filtered element"
      s!"Build `const set = new Set({receiver})` once and use `set.has(...)`"

/-! ## Copies and messages -/

/-- A copy of a value through its text. -/
def deepClone : Pattern := lit "JSON.parse(" ++ blanks ++ lit "JSON.stringify("

/-- Describes `structuredClone`. -/
def structuredCloneInfo : RuleInfo where
  id := "js-structured-clone"
  title := "Deep clone via JSON round trip"
  impact := .low
  severity := .bestPractice
  description := "JSON.parse(JSON.stringify(x)) is slow and drops Dates, Maps and undefined."
  referenceUrl := "https://developer.mozilla.org/en-US/docs/Web/API/Window/structuredClone"

/-- Reports copies of a value through its text. -/
def structuredClone : Rule := structuredCloneInfo.rule [["JSON.parse"]] fun _ content =>
  (deepClone.findAll content).map fun m =>
    Spot.atOffset content m.start "deep clone through JSON.parse(JSON.stringify(...))"
      "Use `structuredClone(value)`"

/-- A message for debugging. -/
def consoleCall : Pattern :=
  seqAll [wordBoundary, lit "console.", alt (lit "log") (lit "debug"), lit "("]

/-- Describes `noConsole`. -/
def noConsoleInfo : RuleInfo where
  id := "js-no-console"
  title := "console.log left in code"
  impact := .low
  severity := .info
  description := "Debug logging shipped to production."
  referenceUrl := "https://eslint.org/docs/latest/rules/no-console"

/-- Reports messages for debugging outside of tests. -/
def noConsole : Rule := noConsoleInfo.rule [["console."]] fun path content =>
  if Path.isTest path then []
  else
    (codeLines content).flatMap fun (n, line) => (consoleCall.findAll line).map fun m =>
      let callee := String.ofList (Text.trimEndBy (· == '(') m.text)
      Spot.inLine n m.start s!"`{callee}` left in source"
        "Remove it or use a logger that is stripped in production builds"

/-! ## Passes that could be one -/

/-- A call of `filter` whose result is mapped. -/
def filterThenMap : Pattern := seqAll [lit ".filter(", many (· != '\n'), lit ")", blanks, lit ".map("]

/-- Describes `combineIterations`. -/
def combineIterationsInfo : RuleInfo where
  id := "js-combine-iterations"
  title := "filter().map() chain"
  impact := .low
  severity := .info
  description := "Two passes over the array where one reduce or flatMap would do."
  referenceUrl :=
    "https://developer.mozilla.org/en-US/docs/Web/JavaScript/Reference/Global_Objects/Array/flatMap"

/-- Reports lines that filter a list and map the result. -/
def combineIterations : Rule := combineIterationsInfo.rule [[".filter("]] fun _ content =>
  (codeLines content).filterMap fun (n, line) => do
    let m ← filterThenMap.find line
    return Spot.inLine n m.start "`.filter().map()` walks the array twice"
      "Combine into one pass with `flatMap` or `reduce` when the array is large"

end Checkup
