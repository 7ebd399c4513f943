import Checkup.Pattern.Class
import Checkup.Rule.Basic
import Checkup.Rule.Tables
import Checkup.Source.BraceScope
import Checkup.Source.Line

/-!
# Rules about the composition of components

* `propsBlocks`: the types of a file that list the properties of a component, with the name and type of each.
* `nestedComponent`: the components that are declared inside another one.
-/

namespace Checkup

open Pattern

/-! ## Properties -/

/-- The start of a type that lists properties, up to its brace. Group 1 or 2 is its name. -/
def propsStart : Pattern :=
  let propsName := capitalName ++ lit "Props"
  seqAll [lineStart, spaces, opt (lit "export" ++ gap),
    alt
      (seqAll [lit "interface", gap, group 1 propsName, wordBoundary, many (butNot ['\x7b', '=']), lit "\x7b"])
      (seqAll [lit "type", gap, group 2 propsName, blanks, opt (enclosed '<' '>'), blanks, lit "=", blanks,
        lit "\x7b"])]

/-- A property: its name (group 1) and its type (group 2). -/
def propsField : Pattern :=
  seqAll [textStart, opt (lit "readonly" ++ gap), group 1 name, opt (lit "?"), blanks, lit ":", blanks,
    group 2 (many1 (· != '\n')), textEnd]

/-- The members of the body of a type, the first of which starts with the reversed characters `member`. Semicolons,
commas and line feeds end a member unless a bracket is open; an arrow is no bracket. -/
def membersFrom (member : Text) (depth : Int) (prev : Char) : Text → List Text
  | [] => [member.reverse]
  | c :: t =>
    if c = '\x7b' || c = '(' || c = '[' || c = '<' then membersFrom (c :: member) (depth + 1) c t
    else if c = '>' && prev = '=' then membersFrom (c :: member) depth c t
    else if c = '\x7d' || c = ')' || c = ']' || c = '>' then membersFrom (c :: member) (depth - 1) c t
    else if (c = ';' || c = ',' || c = '\n') && depth ≤ 0 then member.reverse :: membersFrom [] depth c t
    else membersFrom (c :: member) depth c t

/-- The members of the body of a type, without blank ones and comments. -/
def topLevelMembers (body : Text) : List Text :=
  ((membersFrom [] 0 '\x00' body).map Text.trim).filter fun m =>
    !m.isEmpty && ["//", "/*", "*"].all fun lead => !Text.startsWith lead.toList m

/-- A type that lists properties. -/
structure PropsBlock where
  name : Text
  start : Nat
  fields : List (Text × Text)

/-- The types of a file that list properties. -/
def propsBlocks (content : Text) : List PropsBlock :=
  (propsStart.findAll content).filterMap fun m => do
    let name ← (m.group? 1).or (m.group? 2)
    let close ← Text.blockEnd content (m.stop - 1)
    let fields := (topLevelMembers (Text.slice content m.stop close)).filterMap fun member => do
      let f ← propsField.find member
      return ((← f.group? 1).text, Text.trim (← f.group? 2).text)
    return ⟨name.text, m.inkStart, fields⟩

/-- Describes `booleanProps`. -/
def booleanPropsInfo : RuleInfo where
  id := "architecture-avoid-boolean-props"
  title := "Boolean prop proliferation"
  impact := .medium
  severity := .bestPractice
  description :=
    "Several boolean flags on one component usually hide variants that deserve their own components or an enum prop."
  referenceUrl := "https://react.dev/learn/passing-props-to-a-component"

/-- How many flags are too many. -/
def booleanPropsLimit : Nat := 3

/-- Whether the name is that of a flag: it starts with a word that flags start with, and a capital follows. -/
def RuleTables.isFlagName (tables : RuleTables) (name : Text) : Bool :=
  tables.booleanPrefixes.any fun lead =>
    (Text.after? lead.toList name).any fun rest => rest.head?.any Char.isUpper

/-- Reports components with many flags. -/
def booleanProps (tables : RuleTables) : Rule := booleanPropsInfo.rule [["Props"], ["boolean"]] fun _ content =>
  (propsBlocks content).filterMap fun block =>
    let flags := block.fields.filter fun (name, type) => type == "boolean".toList && tables.isFlagName name
    if flags.length < booleanPropsLimit then none
    else
      let names := ", ".intercalate (flags.map fun (name, _) => String.ofList name)
      some <| Spot.atOffset content block.start
        s!"`{String.ofList block.name}` has {flags.length} boolean flags: {names}"
        "Replace the flags with a `variant`/`status` union, or split into composed components"

/-- Describes `tooManyProps`. -/
def tooManyPropsInfo : RuleInfo where
  id := "architecture-too-many-props"
  title := "Too many props"
  impact := .lowMedium
  severity := .bestPractice
  description := "A component with a very wide props interface is doing too much."
  referenceUrl :=
    "https://react.dev/learn/thinking-in-react#step-1-break-the-ui-into-a-component-hierarchy"

/-- How many properties a component may have. -/
def maxProps : Nat := 12

/-- Reports components with many properties. -/
def tooManyProps : Rule := tooManyPropsInfo.rule [["Props"]] fun _ content =>
  ((propsBlocks content).filter fun block => maxProps < block.fields.length).map fun block =>
    Spot.atOffset content block.start
      s!"`{String.ofList block.name}` declares {block.fields.length} props"
      "Group related props into objects or split the component"

/-! ## Components inside components -/

/-- A line that declares a component: as a function (group 1) or as a constant with an arrow (group 2). -/
def componentDeclaration : Pattern :=
  let typing := opt (lit ":" ++ many1 (· != '='))
  seqAll [textStart, blanks, opt (lit "export" ++ gap ++ opt (lit "default" ++ gap)),
    alt
      (seqAll [lit "function", gap, group 1 capitalName, blanks, one fun c => c == '(' || c == '<'])
      (seqAll [lit "const", gap, group 2 capitalName, blanks, typing, lit "=", blanks,
        opt (seqAll [opt (lit "React."), lit "memo(", blanks]), opt (lit "async" ++ gap),
        alt (enclosed '(' ')') (one (fun c => c.isLower || c == '_' || c == '$') ++ many Char.isName), blanks, typing,
        lit "=>"])]

/-- The offset behind the parameters of the component that a line declares, none of whose braces open its body. -/
def afterParameters (line : Text) (m : Match) : Nat :=
  match m.group? 1 with
  | none => m.stop
  | some func =>
    let close := do
      let opening ← Text.findAfter line func.stop '('
      Text.blockEnd line opening
    (close.map (· + 1)).getD func.stop

/-- The spots on the given lines, in the scopes of components that are open before them. -/
def nestedSpots (scope : BraceScope Text) : List (Nat × Text) → List Spot
  | [] => []
  | (n, line) :: rest =>
    match componentDeclaration.find line with
    | none => nestedSpots (scope.feed line) rest
    | some m =>
      match (m.group? 1).or (m.group? 2) with
      | none => nestedSpots (scope.feed line) rest
      | some name =>
        let cut := afterParameters line m
        let scope := scope.feed (Text.takeBytes cut line)
        let further := nestedSpots ((scope.announce name.text).feed (Text.dropBytes cut line)) rest
        match scope.innermost with
        | none => further
        | some outer =>
          Spot.inLine n name.start s!"`{String.ofList name.text}` is declared inside `{String.ofList outer}`"
            "Move it to module scope and pass what it needs as props" :: further

/-- Describes `nestedComponent`. -/
def nestedComponentInfo : RuleInfo where
  id := "architecture-nested-component"
  title := "Component declared inside another component"
  impact := .high
  severity := .performance
  description :=
    "A component defined during render is a new type every render, so React remounts it and drops its state."
  referenceUrl :=
    "https://react.dev/learn/your-first-component#nesting-and-organizing-components"

/-- Reports components that are declared inside another one. -/
def nestedComponent : Rule := nestedComponentInfo.rule [] fun _ content =>
  nestedSpots .start (numberedLines content)

end Checkup
