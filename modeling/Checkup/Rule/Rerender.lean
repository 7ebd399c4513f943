import Checkup.Rule.Basic
import Checkup.Source.Import
import Checkup.Source.Line

/-!
# Rules about rendering again

State and effects that make a component render more often than it has to, or compute again what it has.

* `statePairs`: the state variables of a file with their setters.
* `EffectCall`: a call that registers an effect; `body?` is the text of its function, `hasDependencies` says whether
  it has a second argument.
-/

namespace Checkup

open Pattern

/-! ## State and effects -/

/-- The name of a setter. -/
def setterName : Pattern := lit "set" ++ name

/-- A declaration of a state variable (group 1) and its setter (group 2). -/
def stateDeclaration : Pattern :=
  seqAll [lit "[", blanks, group 1 name, blanks, lit ",", blanks, group 2 setterName, blanks, lit "]", blanks,
    lit "=", blanks, opt (lit "React."), lit "useState", wordBoundary]

/-- The state variables of a file with their setters. -/
def statePairs (content : Text) : List (Text × Text) :=
  (stateDeclaration.findAll content).filterMap fun m => do
    return ((← m.group? 1).text, (← m.group? 2).text)

/-- The start of a call that registers an effect. -/
def effectStart : Pattern :=
  seqAll [wordBoundary, opt (lit "React."), alt (lit "useEffect") (lit "useLayoutEffect"), blanks, lit "("]

/-- A call that registers an effect: where it starts, and where its parentheses are. -/
structure EffectCall where
  start : Nat
  argsOpen : Nat
  argsClose : Nat

/-- The calls in a file whose parentheses match. -/
def effectCalls (content : Text) : List EffectCall :=
  (effectStart.findAll content).filterMap fun m =>
    (Text.blockEnd content (m.stop - 1)).map (⟨m.start, m.stop - 1, ·⟩)

namespace EffectCall

/-- The text between the first braces behind the start of the arguments, up to the end of the arguments. -/
def body? (e : EffectCall) (content : Text) : Option Text := do
  let opening ← Text.findAfter content e.argsOpen '\x7b'
  if e.argsClose ≤ opening then none
  else
    let close ← Text.blockEnd content opening
    return Text.slice content (opening + 1) (min close e.argsClose)

/-- Whether a comma stands in the text at bracket depth zero, if it starts at the given depth. -/
def hasCommaAt (depth : Int) : Text → Bool
  | [] => false
  | c :: t =>
    if c = '(' || c = '\x7b' || c = '[' then hasCommaAt (depth + 1) t
    else if c = ')' || c = '\x7d' || c = ']' then hasCommaAt (depth - 1) t
    else if c = ',' && depth = 0 then true
    else hasCommaAt depth t

/-- Whether the call has a second argument. -/
def hasDependencies (e : EffectCall) (content : Text) : Bool :=
  hasCommaAt 0 (Text.slice content (e.argsOpen + 1) e.argsClose)

end EffectCall

/-! ## State derived in an effect -/

/-- A statement that calls a setter (group 1). -/
def setterCall : Pattern := seqAll [textStart, group 1 setterName, blanks, lit "("]

/-- How many statements an effect may have that only sets state. -/
def derivedMaxStatements : Nat := 3

/-- The statements of a text: what stands between semicolons and line feeds and is neither blank nor a comment. -/
def statements (body : Text) : List Text :=
  ((Text.split (fun c => c == ';' || c == '\n') body).map Text.trim).filter fun s =>
    !s.isEmpty && !isCommentLine s

/-- The setters that an effect calls, if it does nothing else. -/
def syncedSetters? (setters : List Text) (body : Text) : Option (List Text) :=
  let ss := statements body
  if ss.isEmpty || derivedMaxStatements < ss.length then none
  else ss.mapM fun s => do
    let m ← setterCall.find s
    let setter ← m.group? 1
    if setters.contains setter.text then some setter.text else none

/-- Describes `derivedState`. -/
def derivedStateInfo : RuleInfo where
  id := "rerender-derived-state"
  title := "Derived state synced in an effect"
  impact := .medium
  severity := .performance
  description := "An effect that only calls state setters computes derived state one render late."
  referenceUrl :=
    "https://react.dev/learn/you-might-not-need-an-effect#updating-state-based-on-props-or-state"

/-- Reports effects that do nothing but set state. -/
def derivedState : Rule := derivedStateInfo.rule [["useState"], ["useEffect"]] fun _ content =>
  let setters := (statePairs content).map Prod.snd
  if setters.isEmpty then []
  else
    (effectCalls content).filterMap fun e => do
      let body ← e.body? content
      let called ← syncedSetters? setters body
      let names := ", ".intercalate (called.map String.ofList)
      return Spot.atOffset content e.start s!"effect only syncs state via {names}"
        "Compute the value during render (or with useMemo) instead of storing it in state"

/-! ## State set from its current value -/

/-- A call of the setter with a value that is computed from the state variable. -/
def capturedUpdate (value setter : Text) : Pattern :=
  seqAll [wordBoundary, literal setter, lit "(", blanks,
    anyOf [
      seqAll [literal value, blanks, one ['-', '+', '*', '/', '%'].contains],
      seqAll [lit "[", blanks, lit "...", literal value, wordBoundary],
      seqAll [lit "\x7b", blanks, lit "...", literal value, wordBoundary],
      seqAll [lit "!", blanks, literal value, blanks, lit ")"]]]

/-- Describes `functionalSetState`. -/
def functionalSetStateInfo : RuleInfo where
  id := "rerender-functional-setstate"
  title := "State update based on the current value"
  impact := .medium
  severity := .bestPractice
  description := "Updates computed from the current state should use the functional updater form."
  referenceUrl :=
    "https://react.dev/reference/react/useState#updating-state-based-on-the-previous-state"

/-- Reports calls of a setter with a value computed from the state variable. -/
def functionalSetState : Rule := functionalSetStateInfo.rule [["useState"]] fun _ content =>
  Spot.sort <| (statePairs content).flatMap fun (value, setter) =>
    ((capturedUpdate value setter).findAll content).map fun m =>
      let setter := String.ofList setter
      Spot.atOffset content m.start s!"`{setter}` is updated from the captured `{String.ofList value}`"
        s!"Use the updater form: `{setter}(prev => ...)`"

/-! ## Initial state -/

/-- A call that computes the initial value of a state variable. Group 2 is what is called. -/
def stateInitCall : Pattern :=
  seqAll [wordBoundary, lit "useState", blanks, opt (enclosed '<' '>'), blanks, lit "(", blanks,
    opt (group 1 (lit "new" ++ gap)), group 2 dottedName, blanks, lit "("]

/-- Functions that only convert a value. -/
def cheapWrappers : List String := ["Boolean", "Number", "String"]

/-- Describes `lazyStateInit`. -/
def lazyStateInitInfo : RuleInfo where
  id := "rerender-lazy-state-init"
  title := "Expensive useState initializer runs every render"
  impact := .medium
  severity := .performance
  description := "A call passed directly to useState is evaluated on every render; pass a function instead."
  referenceUrl := "https://react.dev/reference/react/useState#avoiding-recreating-the-initial-state"

/-- Reports initial values that are computed in each render. -/
def lazyStateInit : Rule := lazyStateInitInfo.rule [["useState"]] fun _ content =>
  (stateInitCall.findAll content).filterMap fun m => do
    let callee ← m.group? 2
    let callee := String.ofList callee.text
    if cheapWrappers.contains callee then none
    else
      some <| Spot.atOffset content m.start
        s!"`{callee}(...)` runs on every render to compute a value used once"
        s!"Pass an initializer: `useState(() => {callee}(...))`"

/-! ## Effects without dependencies -/

/-- Describes `effectWithoutDependencies`. -/
def effectWithoutDependenciesInfo : RuleInfo where
  id := "rerender-effect-no-deps"
  title := "Effect without a dependency array"
  impact := .medium
  severity := .performance
  description := "An effect without dependencies runs after every render."
  referenceUrl := "https://react.dev/reference/react/useEffect#specifying-reactive-dependencies"

/-- Reports effects without a list of dependencies. -/
def effectWithoutDependencies : Rule := effectWithoutDependenciesInfo.rule [["Effect"]] fun _ content =>
  ((effectCalls content).filter fun e => !e.hasDependencies content).map fun e =>
    Spot.atOffset content e.start "effect has no dependency array and runs after every render"
      "Add a dependency array; use `[]` to run once on mount"

/-! ## Context values -/

/-- An element that provides a new object as the value of a context. Group 1 is its name. -/
def contextValue : Pattern :=
  seqAll [lit "<", group 1 (capitalName ++ alt (lit ".Provider") (lit "Context")), wordBoundary, few (· != '>'),
    wordBoundary, lit "value=\x7b\x7b"]

/-- Describes `inlineContextValue`. -/
def inlineContextValueInfo : RuleInfo where
  id := "rerender-context-value"
  title := "Inline object passed as context value"
  impact := .medium
  severity := .performance
  description := "A new object every render makes every consumer of the context re-render."
  referenceUrl :=
    "https://react.dev/reference/react/useContext#optimizing-re-renders-when-passing-objects-and-functions"

/-- Reports contexts that get a new object in each render. -/
def inlineContextValue : Rule := inlineContextValueInfo.rule [["value=\x7b\x7b"]] fun _ content =>
  (contextValue.findAll content).filterMap fun m => do
    let provider ← m.group? 1
    return Spot.atOffset content m.start
      s!"`<{String.ofList provider.text}>` receives a new object on every render"
      "Wrap the value in useMemo so consumers only re-render when it changes"

/-! ## Keys -/

/-- A usual name of an index. -/
def indexName : Pattern := anyOf [lit "index", lit "idx", lit "i"]

/-- A key that is an index, or a template that holds one. -/
def indexKeyPattern : Pattern :=
  alt
    (seqAll [wordBoundary, lit "key=\x7b", blanks, indexName, blanks, lit "\x7d"])
    (seqAll [wordBoundary, lit "key=\x7b", blanks, lit "\x60", many (· != '\x60'), lit "$\x7b", blanks, indexName,
      blanks, lit "\x7d", many (· != '\x60'), lit "\x60", blanks, lit "\x7d"])

/-- Describes `indexKey`. -/
def indexKeyInfo : RuleInfo where
  id := "rerender-index-key"
  title := "Array index used as key"
  impact := .lowMedium
  severity := .bestPractice
  description := "Index keys break state and cause extra work when the list is reordered."
  referenceUrl := "https://react.dev/learn/rendering-lists#why-does-react-need-keys"

/-- Reports keys that are indexes. -/
def indexKey : Rule := indexKeyInfo.rule [["key="]] fun _ content =>
  (indexKeyPattern.findAll content).map fun m =>
    Spot.atOffset content m.start "list item keyed by its array index" "Use a stable id from the item itself"

/-! ## Data fetched in effects -/

/-- A request over the network. -/
def networkCall : Pattern :=
  alt (seqAll [wordBoundary, lit "fetch", blanks, lit "("]) (wordBoundary ++ lit "axios.")

/-- Whether the file imports a library that fetches data. -/
def usesDataLibrary (content : Text) : Bool :=
  (imports content).any fun r =>
    r.specifier == "swr".toList || Text.startsWith "swr/".toList r.specifier ||
      r.specifier == "@tanstack/react-query".toList

/-- Describes `fetchInEffect`. -/
def fetchInEffectInfo : RuleInfo where
  id := "client-fetch-in-effect"
  title := "Data fetched inside useEffect"
  impact := .mediumHigh
  severity := .bestPractice
  description :=
    "Fetching in effects causes waterfalls and race conditions; use a data library or fetch on the server."
  referenceUrl := "https://react.dev/learn/you-might-not-need-an-effect#fetching-data"

/-- Reports effects that fetch data, unless the file imports a library for that. -/
def fetchInEffect : Rule := fetchInEffectInfo.rule [["useEffect"]] fun _ content =>
  if usesDataLibrary content then []
  else
    (effectCalls content).filterMap fun e => do
      let body ← e.body? content
      if networkCall.occurs body then
        some <| Spot.atOffset content e.start "data is fetched inside an effect"
          "Fetch in a server component, or use SWR / TanStack Query for client-side data"
      else none

end Checkup
