import Checkup.Json.Tree

/-!
# JSON with comments

Configuration files may hold comments and trailing commas. `plain` takes both out, so that what is left can be read
as JSON: first the comments, then each comma with only blanks between it and a closing bracket. Quoted text is left
alone in both steps.
-/

namespace Checkup.Json.Lenient

/-- Where in a text with comments a character stands. -/
inductive Place where
  /-- outside of strings and comments -/
  | code
  /-- inside a string -/
  | quoted
  /-- inside a comment that ends with its line -/
  | lineComment
  /-- inside a comment that ends with a star and a slash, behind a star or not -/
  | blockComment (star : Bool)

/-- Takes the comments out. The line feed behind a line comment stays. -/
def stripComments : Place → Text → Text
  | _, [] => []
  | .code, '/' :: '/' :: t => stripComments .lineComment t
  | .code, '/' :: '*' :: t => stripComments (.blockComment false) t
  | .code, c :: t => c :: stripComments (if c = '\"' then .quoted else .code) t
  | .quoted, '\\' :: c :: t => '\\' :: c :: stripComments .quoted t
  | .quoted, c :: t => c :: stripComments (if c = '\"' then .code else .quoted) t
  | .lineComment, c :: t => if c = '\n' then '\n' :: stripComments .code t else stripComments .lineComment t
  | .blockComment star, c :: t =>
    if star && c = '/' then stripComments .code t else stripComments (.blockComment (c = '*')) t

/-- Whether the next character that is no blank closes an array or object. -/
def closesNext (t : Text) : Bool :=
  match t.dropWhile Char.isBlank with
  | c :: _ => c = '\x7d' || c = ']'
  | [] => false

/-- Takes out each comma outside of strings that comes right before a closing bracket. -/
def stripCommas : (isQuoted : Bool) → Text → Text
  | _, [] => []
  | true, '\\' :: c :: t => '\\' :: c :: stripCommas true t
  | true, c :: t => c :: stripCommas (c != '\"') t
  | false, c :: t =>
    if c = ',' && closesNext t then stripCommas false t else c :: stripCommas (c = '\"') t

/-- The text without comments and trailing commas. -/
def plain (t : Text) : Text := stripCommas false (stripComments .code t)

/-- The tree of a text that may hold comments and trailing commas. -/
def parseTree (t : Text) : Option Tree := Tree.parse (plain t)

/-- The value of a text that may hold comments and trailing commas. -/
def parse (t : Text) : Option Json := (parseTree t).bind Tree.value

end Checkup.Json.Lenient
