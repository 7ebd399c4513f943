import Checkup.Glob.PathFilter
import Checkup.Project.IgnoreFile
import Checkup.Source.File
import Checkup.Source.Path

/-!
# The source files of a project

A walk collects the source files below a directory. It passes over hidden entries, directories that hold no sources
of the project, and all that ignore rules name; a rule that keeps an entry also shows one that is hidden.

* `Folder.verdictOn`: what the ignore rules of all directories above an entry say.
* `Folder.visits`: whether a walk comes to an entry.
* `collectSources`: the source files.
-/

namespace Checkup

/-- Directories that hold no sources of the project. -/
def excludedDirs : List String :=
  ["node_modules", ".next", "dist", "build", "out", "coverage", ".git", ".turbo", ".vercel", ".output",
    "storybook-static"]

/-- The files of ignore rules that a directory may have, the one that decides first. -/
def ignoreFiles : List Names := [[".ignore"], [".gitignore"], [".git", "info", "exclude"]]

/-- The names as a path. -/
def Names.path (names : Names) : String := "/".intercalate names

namespace Folder

/-- What the rules in one directory say about an entry below it. -/
def verdictFrom (f : Folder) (file dir below : Names) (isDir : Bool) : Option Verdict :=
  match f.file? (dir ++ file) with
  | none => none
  | some bytes => verdict? (ignoreRules bytes) below.path isDir

/-- What the rules in files of one name say about an entry, which lies below `dir` by the names `below`: those in the
directory itself, or else those in the directories above, the nearest first. The names of `dir` are in reverse; what is
above a name that leads out of the folder is not known. -/
def nearestVerdict (f : Folder) (file : Names) (isDir : Bool) : (dir below : Names) → Option Verdict
  | [], below => f.verdictFrom file [] below isDir
  | name :: dir, below =>
    (f.verdictFrom file (name :: dir).reverse below isDir).or <|
      if name == ".." || name == "/" then none else f.nearestVerdict file isDir dir (name :: below)

/-- What all ignore rules say about an entry. -/
def verdictOn (f : Folder) (names : Names) (isDir : Bool) : Option Verdict :=
  match names.reverse with
  | [] => none
  | last :: dir => ignoreFiles.findSome? fun file => f.nearestVerdict file isDir dir [last]

/-- Whether a walk comes to an entry once it is in the directory above. -/
def visits (f : Folder) (names : Names) (isDir : Bool) : Bool :=
  let name := names.getLast?.getD ""
  if isDir && excludedDirs.contains name then false
  else
    match f.verdictOn names isDir with
    | some .ignore => false
    | some .keep => true
    | none => !Text.startsWith ['.'] name.toList

/-- Whether a walk from the directory `dir` comes along the names `below`, of which the last is that of a file. -/
def reaches (f : Folder) (dir : Names) : (below : Names) → Bool
  | [] => false
  | [name] => f.visits (dir ++ [name]) false
  | name :: below => f.visits (dir ++ [name]) true && f.reaches (dir ++ [name]) below

/-- The names of a file below a directory. -/
def below? (dir : Names) (s : StoredFile) : Option Names :=
  if dir.isPrefixOf s.names && dir.length < s.names.length then some (s.names.drop dir.length) else none

/-- The source file that a stored file is for a walk from a directory. -/
def source? (f : Folder) (exclude : List Glob) (dir : Names) (s : StoredFile) : Option SourceFile :=
  match below? dir s with
  | none => none
  | some below =>
    if Path.isScript below.path && f.reaches dir below && !isFiltered exclude below.path then
      some ⟨below.path, Utf8.lossyText s.bytes⟩
    else none

end Folder

/-- The source files below a directory in the order of their paths. -/
def collectSources (f : Folder) (root : String) (exclude : List Glob) : Except ConfigFault (List SourceFile) :=
  match f.resolve root with
  | none => .error (.missingRoot root)
  | some dir =>
    if !f.isDir dir then .error (.missingRoot root)
    else .ok (sortByPath (f.files.filterMap (f.source? exclude dir)))

end Checkup
