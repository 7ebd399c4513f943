import Checkup.Glob.Parse
import Checkup.Text.Utf8

/-!
# Files of ignore rules

Each line of such a file says which entries below its directory are ignored, or with `!` in front that they are not.
The last line that applies to an entry decides.

* `IgnoreRule.parse`: the rule of a line.
* `ignoreRules`: the rules of a file.
* `verdict?`: what the rules say about an entry.
-/

namespace Checkup

/-- What is said about an entry. -/
inductive Verdict where
  | ignore
  | keep
  deriving DecidableEq, Repr

/-- A rule: the globs of the paths it is about, whether it is about directories only, and what it says. -/
structure IgnoreRule where
  glob : Glob
  onlyDirs : Bool
  verdict : Verdict

namespace IgnoreRule

/-- How the globs of ignore rules are read. -/
def options : Glob.Options := ⟨true, true⟩

/-- Cuts a slash at the end, together with a backslash before it; whether there was one. -/
def cutSlash (t : Text) : Bool × Text :=
  match Text.before? ['/'] t with
  | none => (false, t)
  | some rest => (true, (Text.before? ['\\'] rest).getD rest)

/-- Whether the glob starts with any directories already. -/
def startsAnywhere (t : Text) : Bool := Text.startsWith "**/".toList t || t == "**".toList

/-- The text of the glob. Without a slash in it, it is about entries at any depth; and two stars at the end are about
what is below a directory, not about the directory. -/
def globText (isAnchored : Bool) (t : Text) : Text :=
  let t := if isAnchored || t.contains '/' || startsAnywhere t then t else "**/".toList ++ t
  if Text.endsWith "/**".toList t then t ++ "/*".toList else t

/-- The line without the mark for the opposite and the slash that ties it to the directory, and whether they were
there. A backslash takes the meaning from a mark. -/
def cutMarks (t : Text) : Verdict × Bool × Text :=
  match t with
  | '\\' :: '!' :: rest => (.ignore, false, '!' :: rest)
  | '\\' :: '#' :: rest => (.ignore, false, '#' :: rest)
  | '!' :: '/' :: rest => (.keep, true, rest)
  | '!' :: rest => (.keep, false, rest)
  | '/' :: rest => (.ignore, true, rest)
  | t => (.ignore, false, t)

/-- The rule of a line. Blanks at the end do not count unless a backslash stands before the last one. Comments and
blank lines have no rule, and neither has a line that is no glob. -/
def parse (line : Text) : Option IgnoreRule :=
  let line := if Text.endsWith ['\\', ' '] line then line else Text.trimEnd line
  if line.isEmpty || Text.startsWith ['#'] line then none
  else
    let (verdict, isAnchored, rest) := cutMarks line
    let (onlyDirs, rest) := cutSlash rest
    match Glob.parse options (globText isAnchored rest) with
    | .ok glob => some ⟨glob, onlyDirs, verdict⟩
    | .error _ => none

/-- Whether the rule is about an entry, given by its path below the directory of the file. -/
def applies (r : IgnoreRule) (path : String) (isDir : Bool) : Bool := (isDir || !r.onlyDirs) && r.glob.isMatch path

end IgnoreRule

/-- The lines of a file up to the first one that is no text. -/
def readableLines (bytes : List UInt8) : List Text :=
  match Utf8.text? bytes with
  | some t => Text.lines t
  | none =>
    let readable := ((Utf8.decode bytes).takeWhile Option.isSome).filterMap id
    Text.lines (Text.trimEndBy (· != '\n') readable)

/-- The rules of a file. Byte order marks in front do not count. -/
def ignoreRules (bytes : List UInt8) : List IgnoreRule :=
  match readableLines bytes with
  | [] => []
  | line :: rest => ((line.dropWhile (· == '\ufeff')) :: rest).filterMap IgnoreRule.parse

/-- What the rules say about an entry: the last one that applies decides. -/
def verdict? (rs : List IgnoreRule) (path : String) (isDir : Bool) : Option Verdict :=
  (rs.reverse.find? fun r => r.applies path isDir).map IgnoreRule.verdict

end Checkup
