import Checkup.Pattern.Class

/-!
# Returned markup

A component returns markup in parentheses: `return ( … )`. `ReturnBlock.feed` follows such blocks line by line and
says of each line whether it belongs to one. Markup returned without parentheses is not followed.
-/

namespace Checkup

open Pattern

/-- Where a line stands. -/
inductive ReturnBlock where
  /-- in no block -/
  | outside
  /-- behind a line that ends with a bare `return` -/
  | awaiting
  /-- in a block, under so many open parentheses -/
  | inside (depth : Nat)
  deriving DecidableEq, Repr

/-- `return` and an opening parenthesis. -/
def returnParen : Pattern := wordBoundary ++ lit "return" ++ blanks ++ lit "("

/-- How many more parentheses open than close. -/
def parenBalance (t : Text) : Int :=
  t.foldl (fun n c => if c = '(' then n + 1 else if c = ')' then n - 1 else n) 0

namespace ReturnBlock

/-- Behind a text that leaves so many parentheses open. -/
def ofBalance (n : Int) : ReturnBlock := if 0 < n then inside n.toNat else outside

/-- Whether the line ends with the word `return`. -/
def endsWithReturn (line : Text) : Bool :=
  match Text.before? "return".toList (Text.trimEnd line) with
  | some rest => !rest.getLast?.any Char.isIdent
  | none => false

/-- A line outside of blocks: whether it belongs to one, and what comes behind it. -/
def feedOutside (line : Text) : Bool × ReturnBlock :=
  match returnParen.find line with
  | some m => (true, ofBalance (parenBalance (Text.dropBytes (m.stop - 1) line)))
  | none => (false, if endsWithReturn line then awaiting else outside)

/-- One line: whether it belongs to a block, and where the next one stands. -/
def feed (s : ReturnBlock) (line : Text) : Bool × ReturnBlock :=
  match s with
  | inside depth => (true, ofBalance (depth + parenBalance line))
  | awaiting =>
    match Text.trimStart line with
    | [] => (false, awaiting)
    | c :: t => if c = '(' then (true, ofBalance (parenBalance (c :: t))) else feedOutside line
  | outside => feedOutside line

/-- Of each line whether it belongs to a block. -/
def mark (s : ReturnBlock) : List Text → List Bool
  | [] => []
  | line :: rest => (s.feed line).1 :: mark (s.feed line).2 rest

end ReturnBlock

/-- The lines that belong to blocks, with their numbers. -/
def returnedLines (ls : List (Nat × Text)) : List (Nat × Text) :=
  ((ls.zip (ReturnBlock.outside.mark (ls.map Prod.snd))).filter Prod.snd).map Prod.fst

end Checkup
