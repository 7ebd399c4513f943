import Checkup.Json.Token

/-!
# Trees of a JSON text

A `Tree` is what a JSON text says before anything is read out of it: numerals are as written, strings may lack a
text, and members keep their order and repetitions. A reader of a part of it is free to ignore the rest.

* `Tree.parse`: the tree of a text. The tokens drive a machine whose stack holds the open arrays and objects.
* `Tree.value`: the value of a tree. Of members with one key the last counts, and the members come in the order of
  their keys; no tree nested deeper than `maxDepth` has a value.
-/

namespace Checkup.Json

/-- What a JSON text says. -/
inductive Tree where
  | null
  | bool (b : Bool)
  | string (s : Option String)
  | numeral (n : Numeral)
  | array (items : List Tree)
  | object (members : List (Option String × Tree))

/-- An array or object whose end has not come yet: what it holds so far, the last first, and in an object the key
of the value that comes next. -/
inductive Frame where
  | array (done : List Tree)
  | object (done : List (Option String × Tree)) (key : Option String)

/-- What may come next. -/
inductive Expect where
  /-- a value -/
  | value
  /-- a value or the end of an array -/
  | firstItem
  /-- a key or the end of an object -/
  | firstKey (done : List (Option String × Tree))
  /-- a key -/
  | key (done : List (Option String × Tree))
  /-- the colon behind a key -/
  | colon (done : List (Option String × Tree)) (key : Option String)
  /-- a comma or the end of the innermost array or object -/
  | more
  /-- nothing: this is the tree -/
  | done (v : Tree)

/-- A state of the machine: the open arrays and objects, the innermost first, and what may come next. -/
structure Machine where
  frames : List Frame
  expect : Expect

namespace Machine

/-- Before the first token. -/
def start : Machine := ⟨[], .value⟩

/-- Behind a complete value. -/
def push (v : Tree) : List Frame → Machine
  | [] => ⟨[], .done v⟩
  | .array done :: fs => ⟨.array (v :: done) :: fs, .more⟩
  | .object done key :: fs => ⟨.object ((key, v) :: done) key :: fs, .more⟩

/-- A token where a value may start. -/
def startValue (fs : List Frame) : Token → Option Machine
  | .null => some (push .null fs)
  | .bool b => some (push (.bool b) fs)
  | .string s => some (push (.string s) fs)
  | .numeral n => some (push (.numeral n) fs)
  | .openBracket => some ⟨.array [] :: fs, .firstItem⟩
  | .openBrace => some ⟨fs, .firstKey []⟩
  | _ => none

/-- A token where a key may stand. -/
def startMember (fs : List Frame) (done : List (Option String × Tree)) : Token → Option Machine
  | .string s => some ⟨fs, .colon done s⟩
  | _ => none

/-- One token. -/
def step (m : Machine) (t : Token) : Option Machine :=
  match m.expect with
  | .value => startValue m.frames t
  | .firstItem =>
    match t, m.frames with
    | .closeBracket, .array done :: fs => some (push (.array done.reverse) fs)
    | t, fs => startValue fs t
  | .firstKey done =>
    match t with
    | .closeBrace => some (push (.object done.reverse) m.frames)
    | t => startMember m.frames done t
  | .key done => startMember m.frames done t
  | .colon done key =>
    match t with
    | .colon => some ⟨.object done key :: m.frames, .value⟩
    | _ => none
  | .more =>
    match t, m.frames with
    | .comma, .array done :: fs => some ⟨.array done :: fs, .value⟩
    | .comma, .object done _ :: fs => some ⟨fs, .key done⟩
    | .closeBracket, .array done :: fs => some (push (.array done.reverse) fs)
    | .closeBrace, .object done _ :: fs => some (push (.object done.reverse) fs)
    | _, _ => none
  | .done _ => none

/-- The tree, once it is complete. -/
def result : Machine → Option Tree
  | ⟨_, .done v⟩ => some v
  | _ => none

end Machine

namespace Tree

/-- The tree of a sequence of tokens. -/
def ofTokens (ts : List Token) : Option Tree := (ts.foldlM Machine.step Machine.start).bind Machine.result

/-- The tree of a text. -/
def parse (t : Text) : Option Tree := (tokens t).bind ofTokens

/-! ## Values -/

/-- How deep arrays and objects may be nested. -/
def maxDepth : Nat := 127

/-- The members with one more, in the order of the keys; it replaces a member with its key. -/
def insertMember {α : Type} (k : String) (v : α) : List (String × α) → List (String × α)
  | [] => [(k, v)]
  | (k', v') :: more =>
    if k < k' then (k, v) :: (k', v') :: more
    else if k = k' then (k, v) :: more
    else (k', v') :: insertMember k v more

mutual

/-- The value of a tree in which arrays and objects are nested at most `depth` deep. -/
def valueIn (depth : Nat) : Tree → Option Json
  | null => some .null
  | bool b => some (.bool b)
  | string s => s.map .string
  | numeral n => n.value.map .number
  | array items => if depth = 0 then none else (itemsIn (depth - 1) items).map .array
  | object members => if depth = 0 then none else (membersIn (depth - 1) [] members).map .object

/-- The values of the items of an array. -/
def itemsIn (depth : Nat) : List Tree → Option (List Json)
  | [] => some []
  | v :: vs => do
    let v ← valueIn depth v
    let vs ← itemsIn depth vs
    return v :: vs

/-- The members of an object, together with those that came before. -/
def membersIn (depth : Nat) (done : List (String × Json)) : List (Option String × Tree) → Option (List (String × Json))
  | [] => some done
  | (k, v) :: more => do
    let k ← k
    let v ← valueIn depth v
    membersIn depth (insertMember k v done) more

end

/-- The value of a tree. -/
def value (v : Tree) : Option Json := valueIn maxDepth v

end Tree

/-- The value of a text. -/
def parse (t : Text) : Option Json := (Tree.parse t).bind Tree.value

end Checkup.Json
