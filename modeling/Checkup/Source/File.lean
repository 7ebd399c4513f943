import Checkup.Text.Basic

/-!
# Source files

The files of a scan in the order of their paths. Files with one path keep their order.
-/

namespace Checkup

/-- A source file. -/
structure SourceFile where
  path : String
  content : Text

/-- The number of lines. -/
def SourceFile.lineCount (f : SourceFile) : Nat := (Text.lines f.content).length

/-- The files in the order of their paths. -/
def sortByPath (files : List SourceFile) : List SourceFile := files.mergeSort fun a b => a.path ≤ b.path

end Checkup
