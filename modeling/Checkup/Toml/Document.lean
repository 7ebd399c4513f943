import Checkup.Toml.Quoted
import Checkup.Toml.Scalar

/-!
# TOML documents

A document is a sequence of lines: pairs `a.b = v` and headers `[a.b]` and `[[a.b]]`, apart from blank lines and
comments. `Toml.parse` reads the lines one after the other; a pair goes into the table of the header before it.

Readers take what they read off a text and give the rest. Those that repeat or nest have a budget of steps, for which
twice the length of the text is enough because of two steps in a row at least one takes a character.
-/

namespace Checkup.Toml

/-! ## Blanks, comments and keys -/

/-- The rest behind blanks. -/
def skipBlanks (t : Text) : Text := t.dropWhile isLineBlank

/-- The rest behind a line break. -/
def afterBreak : Text → Option Text
  | '\n' :: t => some t
  | '\r' :: '\n' :: t => some t
  | _ => none

/-- The rest behind a comment, if there is one. -/
def skipComment : Text → Text
  | '#' :: t => t.dropWhile isPlain
  | t => t

/-- The rest behind a line that is over but for blanks and a comment. -/
def endLine (t : Text) : Option Text :=
  match skipComment (skipBlanks t) with
  | [] => some []
  | rest => afterBreak rest

/-- The rest behind blanks, comments and line breaks. -/
def skipSpace : Nat → Text → Text
  | 0, t => t
  | fuel + 1, t =>
    match skipComment (dropBreaks t) with
    | [] => []
    | rest => if rest.length < t.length then skipSpace fuel rest else t

/-- A character of a key without quotes. -/
def isBareKey (c : Char) : Bool := c.isAlphanum || c == '_' || c == '-'

/-- A part of a key. -/
def readKeyPart (t : Text) : Option (String × Text) :=
  match readQuotedKey t with
  | some (key, rest) => some (String.ofList key, rest)
  | none =>
    let bare := t.takeWhile isBareKey
    if bare.isEmpty then none else some (String.ofList bare, t.dropWhile isBareKey)

/-- How deep keys may lead, and values may be nested, is less than this. -/
def depthLimit : Nat := 80

/-- The parts of a key after those of `acc`, which is reversed. -/
def readKeyParts (acc : List String) : Nat → Text → Option (List String × Text)
  | 0, _ => none
  | fuel + 1, t =>
    match readKeyPart (skipBlanks t) with
    | none => none
    | some (part, rest) =>
      match skipBlanks rest with
      | '.' :: more => readKeyParts (part :: acc) fuel more
      | rest => some ((part :: acc).reverse, rest)

/-- A key: the path to the table that it belongs to, and its last part. -/
def readKey (t : Text) : Option (List String × String × Text) :=
  match readKeyParts [] (t.length + 1) t with
  | none => none
  | some (parts, rest) =>
    match parts.getLast? with
    | some last => if parts.length < depthLimit then some (parts.dropLast, last, rest) else none
    | none => none

/-! ## Values -/

/-- A word. -/
def readWord (word : String) (v : Toml) (t : Text) : Option (Toml × Text) :=
  (Text.after? word.toList t).map fun rest => (v, rest)

/-- A value that is neither an array nor a table between braces. -/
def readScalar (t : Text) : Option (Toml × Text) :=
  match t with
  | [] => none
  | c :: _ =>
    if c = '\"' || c = '\'' then (readQuoted t).map fun (s, rest) => (string (String.ofList s), rest)
    else if c = 't' then readWord "true" (bool true) t
    else if c = 'f' then readWord "false" (bool false) t
    else readNumber t

mutual

/-- A value with arrays and tables nested at most `depth` deep. -/
def readValue : (fuel depth : Nat) → Text → Option (Toml × Text)
  | 0, _, _ => none
  | fuel + 1, depth, '[' :: t => if depth = 0 then none else readItems fuel (depth - 1) [] t
  | fuel + 1, depth, '\x7b' :: t =>
    if depth = 0 then none
    else
      match skipBlanks t with
      | '\x7d' :: rest => some (table .inline [], rest)
      | t => readPairs fuel (depth - 1) (table .inline []) t
  | _ + 1, _, t => readScalar t

/-- The items of an array up to its end, after those of `acc`, which is reversed. -/
def readItems : (fuel depth : Nat) → List Toml → Text → Option (Toml × Text)
  | 0, _, _, _ => none
  | fuel + 1, depth, acc, t =>
    match skipSpace t.length t with
    | ']' :: rest => some (array acc.reverse, rest)
    | t =>
      match readValue fuel depth t with
      | none => none
      | some (v, rest) =>
        match skipSpace rest.length rest with
        | ',' :: rest => readItems fuel depth (v :: acc) rest
        | ']' :: rest => some (array (v :: acc).reverse, rest)
        | _ => none

/-- The pairs of a table up to its closing brace, after those of `acc`. -/
def readPairs : (fuel depth : Nat) → Toml → Text → Option (Toml × Text)
  | 0, _, _, _ => none
  | fuel + 1, depth, acc, t =>
    match readKey t with
    | some (path, key, '=' :: rest) =>
      match readValue fuel depth (skipBlanks rest) with
      | none => none
      | some (v, rest) =>
        match addPair path key v acc with
        | none => none
        | some acc =>
          match skipBlanks rest with
          | ',' :: rest => readPairs fuel depth acc rest
          | '\x7d' :: rest => some (acc, rest)
          | _ => none
    | _ => none

end

/-! ## Documents -/

/-- A document so far: its table, and the path of the table that the next pair goes into. -/
structure Draft where
  root : Toml
  here : List String

namespace Draft

/-- Before the first line. -/
def start : Draft := ⟨empty, []⟩

/-- A pair in the table at hand. -/
def pair (d : Draft) (path : List String) (key : String) (v : Toml) : Option Draft :=
  (update false (addPair path key v) d.here d.root).map fun root => { d with root := root }

/-- A header. -/
def header (d : Draft) (path : List String) (key : String) : Option Draft :=
  (openTable path key d.root).map fun root => ⟨root, path ++ [key]⟩

/-- A header in double brackets. -/
def item (d : Draft) (path : List String) (key : String) : Option Draft :=
  (openItem path key d.root).map fun root => ⟨root, path ++ [key]⟩

/-- A line that is a header or a pair, and the rest behind it. -/
def readLine (d : Draft) (t : Text) : Option (Draft × Text) :=
  match t with
  | '[' :: '[' :: t =>
    match readKey t with
    | some (path, key, ']' :: ']' :: rest) => do return (← d.item path key, ← endLine rest)
    | _ => none
  | '[' :: t =>
    match readKey t with
    | some (path, key, ']' :: rest) => do return (← d.header path key, ← endLine rest)
    | _ => none
  | t =>
    match readKey t with
    | some (path, key, '=' :: rest) => do
      let (v, rest) ← readValue (2 * t.length + 1) (depthLimit - 1) (skipBlanks rest)
      return (← d.pair path key v, ← endLine rest)
    | _ => none

/-- The lines of a document. -/
def readLines : Nat → Draft → Text → Option Draft
  | 0, _, _ => none
  | fuel + 1, d, t =>
    match skipBlanks t with
    | [] => some d
    | '#' :: t => (endLine ('#' :: t)).bind (readLines fuel d)
    | '\n' :: t => readLines fuel d t
    | '\r' :: '\n' :: t => readLines fuel d t
    | t =>
      match d.readLine t with
      | some (d, rest) => readLines fuel d rest
      | none => none

end Draft

/-- The document of a text. A byte order mark in front does not count. -/
def parse (t : Text) : Option Toml :=
  let t := (Text.after? ['\ufeff'] t).getD t
  (Draft.readLines (t.length + 1) .start t).map Draft.root

end Checkup.Toml
