import Checkup.Glob.Parse
import Checkup.Settings

/-!
# Filters of paths

The paths that a user wants to have passed over, as globs. A slash at the end of a pattern stands for everything below
a directory, and a slash in a path is a character like any other.
-/

namespace Checkup

/-- How the patterns of a user are read. -/
def filterOptions : Glob.Options := ⟨false, false⟩

/-- A pattern, with everything below a directory spelled out. -/
def normalPattern (pattern : String) : String :=
  if Text.endsWith ['/'] pattern.toList then pattern ++ "**" else pattern

/-- The glob of a pattern. -/
def filterGlob (pattern : String) : Except ConfigFault Glob :=
  let normal := normalPattern pattern
  match Glob.parse filterOptions normal.toList with
  | .ok g => .ok g
  | .error fault => .error (.invalidPattern pattern s!"error parsing glob '{normal}': {fault.message}")

/-- The globs of patterns. -/
def filterGlobs (patterns : List String) : Except ConfigFault (List Glob) := patterns.mapM filterGlob

/-- Whether a path is passed over. -/
def isFiltered (gs : List Glob) (path : String) : Bool := gs.any fun g => g.isMatch path

end Checkup
