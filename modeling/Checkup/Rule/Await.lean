import Checkup.Rule.Basic
import Checkup.Pattern.Class
import Checkup.Source.Line

/-!
# Rules about awaiting

Awaits that run one after another though they could run at the same time: in a row, in a loop, or before a guard
that does not need them.

* `awaitRuns`: the statements that bind an awaited value, in runs with only blank and comment lines between them.
* `loopBodies`: the bodies of `for` and `while` loops.
-/

namespace Checkup

open Pattern

/-! ## Await statements -/

/-- What a statement binds: a pattern in brackets or a name. -/
def bindingTarget : Pattern := alt (enclosed '[' ']') name

/-- A statement that binds an awaited value. Group 1 is what it binds after a keyword, group 2 without one, group 3
is the rest of the line after `await`. A pattern in braces needs the keyword. -/
def awaitStatement : Pattern :=
  seqAll [textStart, blanks,
    alt
      (seqAll [opt (lit "export" ++ gap), anyOf [lit "const", lit "let", lit "var"], gap,
        group 1 (alt (enclosed '\x7b' '\x7d') bindingTarget)])
      (group 2 bindingTarget),
    blanks, opt (lit ":" ++ many1 (· != '=')), lit "=", blanks, lit "await", wordBoundary,
    group 3 (many (· != '\n')), textEnd]

/-- The names that a binding target binds. A part of a pattern binds what stands behind its last colon, up to an
equals sign. -/
def boundNames (target : Text) : List Text :=
  let target := Text.trim target
  if Text.isIdentifier target then [target]
  else
    let inner := Text.trimEndBy (fun c => c == '\x7d' || c == ']') (target.dropWhile fun c => c == '\x7b' || c == '[')
    (Text.split (· == ',') inner).filterMap fun piece =>
      let piece := dropDots (Text.trim piece)
      let name := Text.trim (Text.firstPiece (· == '=') (Text.lastPiece (· == ':') piece))
      if Text.isIdentifier name then some name else none
where
  /-- The text without groups of three dots at its start. -/
  dropDots : Text → Text
    | '.' :: '.' :: '.' :: t => dropDots t
    | t => t

/-- A statement that binds an awaited value. -/
structure AwaitStatement where
  line : Nat
  column : Nat
  names : List Text
  /-- what is awaited -/
  call : Text
  deriving DecidableEq

namespace AwaitStatement

/-- The statement on a line, if it binds a name. -/
def ofLine (number : Nat) (line : Text) : Option AwaitStatement := do
  let m ← awaitStatement.find line
  let target ← (m.group? 1).or (m.group? 2)
  let names := boundNames target.text
  if names.isEmpty then none
  else some ⟨number, Text.indent line + 1, names, ((m.group? 3).map Capture.text).getD []⟩

/-- Whether what is awaited mentions one of the names. -/
def dependsOn (s : AwaitStatement) (names : List Text) : Bool := names.any (Text.mentions s.call)

/-- The names in a message. -/
def display (s : AwaitStatement) : String := ", ".intercalate (s.names.map String.ofList)

end AwaitStatement

/-- The runs of await statements on the given lines, the first of which continues the run `run`, which is reversed.
Blank and comment lines do not end a run. -/
def awaitRunsFrom (run : List AwaitStatement) : List (Nat × Text) → List (List AwaitStatement)
  | [] => if run.isEmpty then [] else [run.reverse]
  | (n, line) :: rest =>
    match AwaitStatement.ofLine n line with
    | some s => awaitRunsFrom (s :: run) rest
    | none =>
      if Text.isBlank line || isCommentLine line || run.isEmpty then awaitRunsFrom run rest
      else run.reverse :: awaitRunsFrom [] rest

/-- The runs of await statements of a file. Their lines are numbered as in `numberedLines`. -/
def awaitRuns (content : Text) : List (List AwaitStatement) := awaitRunsFrom [] (numberedLines content)

/-! ## Awaits in a row -/

/-- Neighbours in a run, the second of which does not depend on the first; no statement is in two pairs. -/
def independentPairs : List AwaitStatement → List (AwaitStatement × AwaitStatement)
  | [] => []
  | [_] => []
  | a :: b :: rest =>
    if b.dependsOn a.names then independentPairs (b :: rest) else (a, b) :: independentPairs rest

/-- Describes `asyncParallel`. -/
def asyncParallelInfo : RuleInfo where
  id := "async-parallel"
  title := "Independent awaits run sequentially"
  impact := .critical
  severity := .critical
  description :=
    "Two consecutive awaits that do not depend on each other should start together with Promise.all."
  referenceUrl :=
    "https://developer.mozilla.org/en-US/docs/Web/JavaScript/Reference/Global_Objects/Promise/all"

/-- Reports neighbouring awaits that do not depend on each other. -/
def asyncParallel : Rule := asyncParallelInfo.rule [["await"]] fun _ content =>
  (awaitRuns content).flatMap fun run => (independentPairs run).map fun (a, b) =>
    { line := a.line
      column := a.column
      message :=
        s!"`{a.display}` and `{b.display}` are awaited sequentially but do not depend on each other"
      help := "Start both requests together: `const [a, b] = await Promise.all([getA(), getB()])`" }

/-- The longest stretches of a run in which no statement depends on one before it in the stretch, the first of which
starts with the statements of `stretch`, which is reversed. -/
def independentStretches (stretch : List AwaitStatement) : List AwaitStatement → List (List AwaitStatement)
  | [] => [stretch.reverse]
  | s :: rest =>
    if s.dependsOn (stretch.flatMap AwaitStatement.names) then stretch.reverse :: independentStretches [s] rest
    else independentStretches (s :: stretch) rest

/-- Describes `asyncWaterfall`. -/
def asyncWaterfallInfo : RuleInfo where
  id := "async-waterfall-3plus"
  title := "Await waterfall"
  impact := .critical
  severity := .critical
  description := "Three or more independent awaits in a row form a request waterfall."
  referenceUrl :=
    "https://nextjs.org/docs/app/building-your-application/data-fetching/fetching#parallel-and-sequential-data-fetching"

/-- The spot for a stretch of at least three statements. -/
def waterfallSpot (stretch : List AwaitStatement) : Option Spot :=
  match stretch with
  | first :: _ :: _ :: _ =>
    let names := ", ".intercalate (stretch.map fun s => s!"`{s.display}`")
    some {
      line := first.line
      column := first.column
      message := s!"{stretch.length} independent awaits run one after another: {names}"
      help := "Wrap the independent calls in a single `Promise.all` so they run concurrently" }
  | _ => none

/-- Reports three or more awaits in a row that do not depend on each other. -/
def asyncWaterfall : Rule := asyncWaterfallInfo.rule [["await"]] fun _ content =>
  (awaitRuns content).flatMap fun run => (independentStretches [] run).filterMap waterfallSpot

/-! ## Awaits in loops -/

/-- The head of a loop up to its parenthesis. Group 2 is there if the loop awaits each item. -/
def loopHeader : Pattern :=
  seqAll [wordBoundary, group 1 (alt (lit "for") (lit "while")), blanks, opt (group 2 (lit "await" ++ blanks)), lit "("]

/-- The word `await`. -/
def awaitKeyword : Pattern := wordBoundary ++ lit "await" ++ wordBoundary

/-- A call of `forEach` with an asynchronous function. -/
def forEachAsync : Pattern := lit ".forEach(" ++ blanks ++ lit "async" ++ wordBoundary

/-- The offsets of a loop: where its head starts, and where its body starts and ends. -/
structure LoopBody where
  header : Nat
  start : Nat
  stop : Nat
  deriving DecidableEq

namespace LoopBody

/-- The loop with the given head. A body in braces ends with its closing brace, any other with the next semicolon or
line feed; behind the condition of a `do` loop there is no body. -/
def ofHeader (content : Text) (m : Match) : Option LoopBody :=
  if (m.group? 2).isSome then none
  else do
    let close ← Text.blockEnd content (m.stop - 1)
    let rest := Text.dropBytes (close + 1) content
    let start := close + 1 + Text.indent rest
    match Text.trimStart rest with
    | [] => none
    | c :: t =>
      if c = '\x7b' then (Text.blockEnd content start).map (⟨m.start, start, ·⟩)
      else if c = ';' then none
      else
        let stop := (Text.find? (fun c => c == ';' || c == '\n') (c :: t)).getD (Text.byteSize (c :: t))
        some ⟨m.start, start, start + stop⟩

/-- Whether an offset lies between the ends of the body. -/
def contains (b : LoopBody) (offset : Nat) : Bool := b.start < offset && offset < b.stop

/-- Whether the body lies in another one. -/
def isWithin (b outer : LoopBody) : Bool := outer.start < b.start && b.stop ≤ outer.stop

end LoopBody

/-- The loops of a file that have a body and do not await each item. -/
def loopBodies (content : Text) : List LoopBody := (loopHeader.findAll content).filterMap (LoopBody.ofHeader content)

/-- Whether one of the offsets lies in the body of a loop and not in that of a loop inside. -/
def awaitsDirectly (loops : List LoopBody) (awaits : List Nat) (b : LoopBody) : Bool :=
  let nested := loops.filter (·.isWithin b)
  awaits.any fun offset => b.contains offset && !nested.any (·.contains offset)

/-- Describes `awaitInLoop`. -/
def awaitInLoopInfo : RuleInfo where
  id := "async-await-in-loop"
  title := "Await inside a loop"
  impact := .high
  severity := .performance
  description := "Awaiting inside a loop serializes every iteration."
  referenceUrl := "https://eslint.org/docs/latest/rules/no-await-in-loop"

/-- Reports loops that await, and asynchronous functions given to `forEach`. -/
def awaitInLoop : Rule := awaitInLoopInfo.rule [["await", "forEach"]] fun _ content =>
  let loops := loopBodies content
  let awaits := (awaitKeyword.findAll content).map fun m => m.start
  let inLoops := (loops.filter (awaitsDirectly loops awaits)).map fun b =>
    Spot.atOffset content b.header "`await` inside a loop runs each iteration one after another"
      "Collect the promises and await them together with `Promise.all(items.map(...))`"
  let callbacks := (forEachAsync.findAll content).map fun m =>
    Spot.atOffset content m.start "async callback passed to `forEach` is never awaited"
      "Use `for...of` for sequential work or `Promise.all(items.map(async ...))` for parallel work"
  Spot.sort (inLoops ++ callbacks)

/-! ## Awaits before a guard -/

/-- A guard that leaves the function. Group 1 is its condition. -/
def earlyExit : Pattern :=
  seqAll [textStart, blanks, lit "if", blanks, lit "(", group 1 (many1 (· != '\n')), lit ")", blanks,
    opt (lit "\x7b"), blanks, alt (lit "return") (lit "throw"), wordBoundary]

/-- How many lines behind an await a guard is looked for. -/
def deferLookahead : Nat := 3

/-- Whether the first line that is a guard does not mention any of the names, unless a line before it mentions one. -/
def guardIgnores (names : List Text) : List Text → Bool
  | [] => false
  | line :: rest =>
    match earlyExit.find line with
    | some m => !names.any (Text.mentions (((m.group? 1).map Capture.text).getD []))
    | none => if names.any (Text.mentions line) then false else guardIgnores names rest

/-- The spots on the given lines. -/
def deferSpots : List (Nat × Text) → List Spot
  | [] => []
  | (n, line) :: rest =>
    match AwaitStatement.ofLine n line with
    | none => deferSpots rest
    | some s =>
      let following := (rest.map Prod.snd).filter fun l => !Text.isBlank l && !isCommentLine l
      if guardIgnores s.names (following.take deferLookahead) then
        { line := s.line
          column := s.column
          message := s!"`{s.display}` is awaited before an early return that does not use it"
          help := "Move the await below the guard so the early-exit path skips the request" } :: deferSpots rest
      else deferSpots rest

/-- Describes `deferAwait`. -/
def deferAwaitInfo : RuleInfo where
  id := "async-defer-await"
  title := "Await before an unrelated early return"
  impact := .high
  severity := .performance
  description := "An awaited value that the following guard does not use could be fetched after the guard."
  referenceUrl :=
    "https://react.dev/reference/rsc/server-components#async-components-with-server-components"

/-- Reports an await that comes before a guard that does not use the awaited value. -/
def deferAwait : Rule := deferAwaitInfo.rule [["await"]] fun _ content =>
  deferSpots (numberedLines content)

end Checkup
