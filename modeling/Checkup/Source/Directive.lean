import Checkup.Source.Line

/-!
# Directives

A file says with a quoted statement at its top whether it runs in the browser or is a module of server functions.

* `findDirective`: the first directive among the first five lines that are not blank, with its line. Comment lines
  count among the five.
-/

namespace Checkup

/-- Where the code of a file runs. -/
inductive Directive where
  | client
  | server
  deriving DecidableEq, Repr

/-- The number of lines, not counting blank ones, that may hold the directive. -/
def directiveWindow : Nat := 5

/-- The text between two marks. -/
def Text.between? (mark : Char) (t : Text) : Option Text :=
  (Text.after? [mark] t).bind (Text.before? [mark])

/-- The directive that a line states. -/
def Directive.ofLine (line : Text) : Option Directive :=
  let statement := Text.trimEnd (Text.trimEndBy (· == ';') (Text.trim line))
  match (Text.between? '\"' statement).or (Text.between? '\'' statement) with
  | some quoted =>
    if quoted = "use client".toList then some .client
    else if quoted = "use server".toList then some .server
    else none
  | none => none

/-- The directive of a file and the number of the line that states it, as in `numberedLines`. -/
def findDirective (content : Text) : Option (Directive × Nat) :=
  let window := ((numberedLines content).filter fun (_, line) => !Text.isBlank line).take directiveWindow
  (window.filter fun (_, line) => !isCommentLine line).findSome? fun (n, line) =>
    (Directive.ofLine line).map (·, n)

/-- The directive of a file. -/
def directive (content : Text) : Option Directive := (findDirective content).map Prod.fst

/-- Whether the file runs in the browser. -/
def isClientFile (content : Text) : Bool := directive content == some .client

end Checkup
