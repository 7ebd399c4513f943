import Checkup.Rule.Basic
import Checkup.Rule.Tables
import Checkup.Source.Directive
import Checkup.Source.Import

/-!
# Rules about the boundary between server and browser

Server functions that anyone may call, and code of the server in files that run in the browser.
-/

namespace Checkup

open Pattern

/-! ## Server functions without a check of the caller -/

/-- A line that exports a server function. Group 1 or 2 is its name. -/
def exportedAction : Pattern :=
  seqAll [textStart, blanks, lit "export", gap, opt (lit "default" ++ gap),
    alt
      (seqAll [lit "async", gap, lit "function", gap, group 1 name])
      (seqAll [lit "const", gap, group 2 name, blanks, lit "=", blanks, lit "async", wordBoundary])]

/-- The name of the server function that a line exports. -/
def exportedAction? (line : Text) : Option Capture := do
  let m ← exportedAction.find line
  (m.group? 1).or (m.group? 2)

/-- How many lines behind its first line a server function may check the caller. -/
def authLookahead : Nat := 30

/-- Whether the name says that the function changes data: it starts with a verb, and with that verb the first word
ends. -/
def RuleTables.isMutation (tables : RuleTables) (name : Text) : Bool :=
  tables.mutationVerbs.any fun verb =>
    (Text.after? verb.toList name).any fun rest =>
      rest.head?.all fun c => c.isUpper || c == '_' || c.isDigit

/-- Whether one of the lines checks the caller. -/
def RuleTables.checksCaller (tables : RuleTables) (ls : List Text) : Bool :=
  ls.any fun line => tables.authTokens.any (Text.has line)

/-- The spots on the given lines. The check has to come before the next exported function. -/
def unauthenticatedSpots (tables : RuleTables) : List (Nat × Text) → List Spot
  | [] => []
  | (n, line) :: rest =>
    match exportedAction? line with
    | none => unauthenticatedSpots tables rest
    | some name =>
      let following := ((rest.take authLookahead).map Prod.snd).takeWhile fun l => (exportedAction? l).isNone
      if tables.isMutation name.text && !tables.checksCaller (line :: following) then
        Spot.inLine n name.start
          s!"server action `{String.ofList name.text}` changes data without checking who is calling"
          ("Verify the session at the top of the action, e.g. `const session = await auth(); " ++
            "if (!session) throw new Error(\"Unauthorized\")`")
          :: unauthenticatedSpots tables rest
      else unauthenticatedSpots tables rest

/-- Describes `unauthenticatedAction`. -/
def unauthenticatedActionInfo : RuleInfo where
  id := "server-auth-actions"
  title := "Server action mutates without an auth check"
  impact := .critical
  severity := .critical
  description := "Server actions are public endpoints; mutations must verify the caller."
  referenceUrl :=
    "https://nextjs.org/docs/app/building-your-application/data-fetching/server-actions-and-mutations#security"

/-- Reports server functions that change data and do not check who is calling. -/
def unauthenticatedAction (tables : RuleTables) : Rule := unauthenticatedActionInfo.rule [] fun _ content =>
  if directive content != some .server then [] else unauthenticatedSpots tables (numberedLines content)

/-! ## Secrets -/

/-- The read of a variable of the environment, whose name is group 1. -/
def environmentRead : Pattern :=
  seqAll [wordBoundary, lit "process.env.",
    group 1 (one (fun c => c.isAlpha || c == '_') ++ many fun c => c.isAlphanum || c == '_')]

/-- Whether the browser may see the variable. -/
def isPublicVariable (name : Text) : Bool := Text.startsWith "NEXT_PUBLIC_".toList name || name == "NODE_ENV".toList

/-- Describes `secretInClient`. -/
def secretInClientInfo : RuleInfo where
  id := "server-secret-in-client"
  title := "Server environment variable in a client component"
  impact := .critical
  severity := .critical
  description := "Only NEXT_PUBLIC_ variables are available in the browser; anything else is undefined or leaks."
  referenceUrl :=
    "https://nextjs.org/docs/app/building-your-application/configuring/" ++
      "environment-variables#bundling-environment-variables-for-the-browser"

/-- Reports variables of the server's environment in files that run in the browser. -/
def secretInClient : Rule := secretInClientInfo.rule [["process.env"]] fun _ content =>
  if !isClientFile content then []
  else
    (codeLines content).flatMap fun (n, line) => (environmentRead.findAll line).filterMap fun m => do
      let name ← m.group? 1
      if isPublicVariable name.text then none
      else
        some <| Spot.inLine n m.start s!"`process.env.{String.ofList name.text}` is read in a client component"
          ("Read it on the server and pass the value down, or rename it with the NEXT_PUBLIC_ prefix " ++
            "if it is safe to expose")

/-! ## Modules of the server -/

/-- Whether the module is one that only a server has, with or without its mark as builtin, or a part of one. -/
def RuleTables.isServerOnly (tables : RuleTables) (specifier : Text) : Bool :=
  let bare := (Text.after? "node:".toList specifier).getD specifier
  tables.serverOnlyModules.any fun entry =>
    specifier == entry.toList || bare == entry.toList ||
      (Text.after? entry.toList specifier).any fun rest => rest.head? == some '/'

/-- Describes `serverImportInClient`. -/
def serverImportInClientInfo : RuleInfo where
  id := "server-import-in-client"
  title := "Server-only module imported in a client component"
  impact := .high
  severity := .critical
  description := "Node built-ins and server-only packages break or leak when bundled for the browser."
  referenceUrl :=
    "https://nextjs.org/docs/app/building-your-application/rendering/" ++
      "composition-patterns#keeping-server-only-code-out-of-the-client-environment"

/-- Reports modules of the server in files that run in the browser. -/
def serverImportInClient (tables : RuleTables) : Rule := serverImportInClientInfo.rule [] fun _ content =>
  if !isClientFile content then []
  else
    ((imports content).filter fun r => tables.isServerOnly r.specifier).map fun r =>
      Spot.atOffset content r.offset
        s!"server-only module `{String.ofList r.specifier}` imported in a client component"
        "Move this logic into a server component or server action and pass the result down"

/-! ## Inline server functions -/

/-- The offset of the directive of an inline server function in a line. -/
def inlineDirective? (line : Text) : Option Nat :=
  (Text.indexOf? "\"use server\"".toList line).or (Text.indexOf? "'use server'".toList line)

/-- Describes `inlineActionInClient`. -/
def inlineActionInClientInfo : RuleInfo where
  id := "server-inline-action-in-client"
  title := "Inline server action in a client component"
  impact := .high
  severity := .critical
  description :=
    "Client components cannot define inline server actions; they must be imported from a \"use server\" module."
  referenceUrl := "https://nextjs.org/docs/app/api-reference/directives/use-server"

/-- Reports inline server functions in files that run in the browser. -/
def inlineActionInClient : Rule := inlineActionInClientInfo.rule [["use server"]] fun _ content =>
  if !isClientFile content then []
  else
    ((numberedLines content).drop directiveWindow).filterMap fun (n, line) =>
      (inlineDirective? line).map fun offset =>
        Spot.inLine n offset "inline \"use server\" action inside a client component"
          "Move the action into a separate file that starts with \"use server\" and import it"

end Checkup
