import Checkup.Text.Basic

/-!
# Lines of source

* `isCommentLine`: whether a line starts as a comment does.
* `codeLines`: the other lines, with their numbers.
-/

namespace Checkup

/-- Whether the line starts with a comment or continues one. -/
def isCommentLine (line : Text) : Bool :=
  let t := Text.trimStart line
  ["//", "/*", "*", "\x7b/*"].any fun lead => Text.startsWith lead.toList t

/-- The lines with their numbers, which count from one. They are not bounded; those of a text of less than `2 ^ 32 - 1`
bytes fit in words of 32 bits. -/
def numberedLines (t : Text) : List (Nat × Text) := (Text.lines t).zipIdx.map fun (line, i) => (i + 1, line)

/-- The lines that are no comments, with their numbers. -/
def codeLines (t : Text) : List (Nat × Text) := (numberedLines t).filter fun (_, line) => !isCommentLine line

end Checkup
