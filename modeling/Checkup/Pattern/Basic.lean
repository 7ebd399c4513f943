import Checkup.Text.Basic
import Checkup.Text.Word

/-!
# Patterns

A `Pattern` describes texts, and `Pattern.matchAt` says how it matches from a place in a text. Choices are tried in
order and the first way to match wins: an alternative before the next one, `opt` and `many` with as much as they can
take first, `few` with as little. Repetition is of single characters only, so a match never needs to repeat a
pattern, and matching is a recursion on the pattern.

* `Pattern.matchAt`: the match from a cursor.
* `Pattern.find`: the leftmost match.
* `Pattern.findAll`: the matches from left to right, each after the end of the one before.
-/

namespace Checkup

/-- A place in a text: the character before it, the characters after it, and its byte offset. -/
structure Cursor where
  prev : Option Char
  rest : Text
  pos : Nat

namespace Cursor

/-- The place before the first character. -/
def ofText (t : Text) : Cursor := ⟨none, t, 0⟩

/-- The place behind `c`, the first of the characters `c :: rest` after `k`. -/
def step (k : Cursor) (c : Char) (rest : Text) : Cursor := ⟨some c, rest, k.pos + c.utf8Size⟩

/-- Whether a word starts or ends here. -/
def atWordBoundary (k : Cursor) : Bool :=
  (k.prev.any Char.isWord) != (k.rest.head?.any Char.isWord)

/-- Whether this is the start of the text or follows a line feed. -/
def atLineStart (k : Cursor) : Bool := k.prev.all (· == '\n')

end Cursor

/-- A description of texts. -/
inductive Pattern where
  /-- the empty text -/
  | nothing
  /-- one character of a class -/
  | one (p : Char → Bool)
  /-- characters of a class, as many as there are first -/
  | many (p : Char → Bool)
  /-- characters of a class, none first -/
  | few (p : Char → Bool)
  /-- one text, then another -/
  | seq (a b : Pattern)
  /-- one text, or else another -/
  | alt (a b : Pattern)
  /-- a text, or else the empty text -/
  | opt (a : Pattern)
  /-- a text whose place is recorded under a number -/
  | group (n : Nat) (a : Pattern)
  /-- the empty text at a start or end of a word -/
  | wordBoundary
  /-- the empty text at the start of a line -/
  | lineStart
  /-- the empty text at the start of the whole text -/
  | textStart
  /-- the empty text at the end of the whole text -/
  | textEnd

/-- A part of a text: the byte offset where it starts, and its characters. -/
structure Capture where
  start : Nat
  text : Text
  deriving DecidableEq

/-- The byte offset behind the part. -/
def Capture.stop (c : Capture) : Nat := c.start + Text.byteSize c.text

/-- The part between two cursors of one text. -/
def Capture.between (a b : Cursor) : Capture := ⟨a.pos, Text.takeBytes (b.pos - a.pos) a.rest⟩

/-- A match: the part of the text that the whole pattern took, and those of its groups that took part. -/
structure Match extends Capture where
  groups : List (Nat × Capture)

namespace Match

/-- What the group took. -/
def group? (m : Match) (n : Nat) : Option Capture := m.groups.lookup n

/-- The offset of the first character of the match that is no blank. -/
def inkStart (m : Match) : Nat := m.start + Text.indent m.text

end Match

namespace Pattern

instance : Append Pattern := ⟨seq⟩

instance : OrElse Pattern := ⟨fun a b => alt a (b ())⟩

/-- One given text. -/
def literal : Text → Pattern
  | [] => nothing
  | [c] => one (· == c)
  | c :: t => seq (one (· == c)) (literal t)

/-- One given string. -/
def lit (s : String) : Pattern := literal s.toList

/-- Characters of a class, at least one. -/
def many1 (p : Char → Bool) : Pattern := seq (one p) (many p)

/-- Blanks, as many as there are. -/
def blanks : Pattern := many Char.isBlank

/-- Blanks, at least one. -/
def gap : Pattern := many1 Char.isBlank

/-! ## Matching -/

/-- Groups that took part so far: number, cursor at the start, cursor at the end. -/
abbrev Marks := List (Nat × Cursor × Cursor)

/-- The cursors that characters of the class lead to, the farthest first, before `near`. -/
def farthestFirst (p : Char → Bool) (near : List Cursor) (prev : Option Char) (pos : Nat) : Text → List Cursor
  | [] => ⟨prev, [], pos⟩ :: near
  | c :: t =>
    if p c then farthestFirst p (⟨prev, c :: t, pos⟩ :: near) (some c) (pos + c.utf8Size) t
    else ⟨prev, c :: t, pos⟩ :: near

/-- The first success of `k` at a cursor that characters of the class lead to, the nearest first. -/
def firstNearest {α : Type} (p : Char → Bool) (k : Cursor → Option α) (prev : Option Char) (pos : Nat) :
    Text → Option α
  | [] => k ⟨prev, [], pos⟩
  | c :: t =>
    match k ⟨prev, c :: t, pos⟩ with
    | some r => some r
    | none => if p c then firstNearest p k (some c) (pos + c.utf8Size) t else none

/-- The first way to match from a cursor that `k` accepts. -/
def run {α : Type} : Pattern → Cursor → Marks → (Cursor → Marks → Option α) → Option α
  | nothing, c, g, k => k c g
  | one p, c, g, k =>
    match c.rest with
    | [] => none
    | x :: t => if p x then k (c.step x t) g else none
  | many p, c, g, k => (farthestFirst p [] c.prev c.pos c.rest).findSome? fun c => k c g
  | few p, c, g, k => firstNearest p (fun c => k c g) c.prev c.pos c.rest
  | seq a b, c, g, k => a.run c g fun c g => b.run c g k
  | alt a b, c, g, k =>
    match a.run c g k with
    | some r => some r
    | none => b.run c g k
  | opt a, c, g, k =>
    match a.run c g k with
    | some r => some r
    | none => k c g
  | group n a, c, g, k => a.run c g fun c' g' => k c' ((n, c, c') :: g')
  | wordBoundary, c, g, k => if c.atWordBoundary then k c g else none
  | lineStart, c, g, k => if c.atLineStart then k c g else none
  | textStart, c, g, k => if c.pos = 0 then k c g else none
  | textEnd, c, g, k => if c.rest.isEmpty then k c g else none

/-- The match from a cursor. -/
def matchAt (p : Pattern) (c : Cursor) : Option Match :=
  p.run c [] fun c' g =>
    some { toCapture := .between c c', groups := g.map fun (n, a, b) => (n, .between a b) }

/-- The leftmost match that starts after `prev`, in the characters that follow it. -/
def findFrom (p : Pattern) (prev : Option Char) (pos : Nat) : Text → Option Match
  | [] => p.matchAt ⟨prev, [], pos⟩
  | c :: t =>
    match p.matchAt ⟨prev, c :: t, pos⟩ with
    | some m => some m
    | none => p.findFrom (some c) (pos + c.utf8Size) t

/-- The leftmost match. -/
def find (p : Pattern) (t : Text) : Option Match := p.findFrom none 0 t

/-- Whether the pattern matches somewhere. -/
def occurs (p : Pattern) (t : Text) : Bool := (p.find t).isSome

/-- The matches that start at `resume` or later, each after the end of the one before. -/
def findAllFrom (p : Pattern) (prev : Option Char) (pos resume : Nat) : Text → List Match
  | [] => if pos < resume then [] else (p.matchAt ⟨prev, [], pos⟩).toList
  | c :: t =>
    if pos < resume then p.findAllFrom (some c) (pos + c.utf8Size) resume t
    else
      match p.matchAt ⟨prev, c :: t, pos⟩ with
      | some m => m :: p.findAllFrom (some c) (pos + c.utf8Size) m.stop t
      | none => p.findAllFrom (some c) (pos + c.utf8Size) resume t

/-- The matches from left to right, each after the end of the one before. -/
def findAll (p : Pattern) (t : Text) : List Match := p.findAllFrom none 0 0 t

end Pattern

end Checkup
