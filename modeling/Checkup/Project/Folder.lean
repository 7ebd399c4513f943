import Checkup.Text.Utf8

/-!
# Folders

A `Folder` holds files and directories under paths, each the list of the names that lead to it. The directories on the
way to an entry are there as well. Paths that are written down are relative to the folder unless they start with a
slash: `Folder.resolve` follows them name by name, with `.` for the same directory and `..` for the one above.

The folder is a part of a disk. The directories above it are there as well, under lists of names that start with `..`,
and so is the top of the disk, under the name `/`; they hold nothing but what is said to be there.

* `Folder.isDir`, `Folder.file?`: what is there under a list of names.
* `Folder.fileAt?`: the file under a written path.
* `Folder.put`: the folder with one more file.
* `joinPath`: the path of an entry of a directory, as it is written.
-/

namespace Checkup

/-- The names that lead from a folder to an entry below it. -/
abbrev Names := List String

/-- A file in a folder. -/
structure StoredFile where
  names : Names
  bytes : List UInt8

/-- The parts of a written path, those that are empty or `.` among them. -/
def pathParts (path : String) : List String := (Text.split (· == '/') path.toList).map String.ofList

/-- Files, and directories that need not hold any. -/
structure Folder where
  files : List StoredFile
  dirs : List Names

namespace Names

/-- The top of the disk. -/
def top : Names := ["/"]

/-- Whether the names lead to the folder itself or one of those above. -/
def isAncestor (names : Names) : Bool := names == top || names.all (· == "..")

/-- The names of the directory above. There is none above the top. -/
def above (names : Names) : Names :=
  if names == top then top else if names.isAncestor then names ++ [".."] else names.dropLast

end Names

/-- The names from which a written path starts. -/
def pathStart (path : String) : Names := if Text.startsWith ['/'] path.toList then .top else []

/-- The names that a written path leads to if all of them are there. -/
def pathNames (path : String) : Names :=
  (pathParts path).foldl (fun here part =>
    if part = "" || part = "." then here else if part = ".." then here.above else here ++ [part]) (pathStart path)

namespace Folder

/-- Whether there is a directory. -/
def isDir (f : Folder) (names : Names) : Bool :=
  names.isAncestor || (f.dirs.any fun d => names.isPrefixOf d) ||
    f.files.any fun s => names.isPrefixOf s.names && names.length < s.names.length

/-- The bytes of a file. -/
def file? (f : Folder) (names : Names) : Option (List UInt8) :=
  (f.files.find? fun s => s.names == names).map StoredFile.bytes

/-- Puts a file into the folder, in place of one of the same names. -/
def put (f : Folder) (s : StoredFile) : Folder := { f with files := s :: f.files.filter fun t => t.names != s.names }

/-- The file that was put there is there, and nothing else changes. -/
theorem file?_put (f : Folder) (s : StoredFile) (names : Names) :
    (f.put s).file? names = if names = s.names then some s.bytes else f.file? names := by
  by_cases h : names = s.names
  · simp [file?, put, h]
  · have hs : (s.names == names) = false := beq_eq_false_iff_ne.mpr (Ne.symm h)
    simp only [file?, put, List.find?_cons, hs, if_neg h, List.find?_filter]
    congr 2
    funext t
    by_cases ht : t.names = names
    · simp [ht, h]
    · simp [ht]

/-- Goes on from a directory along the parts of a path. Every part but the last has to lead to a directory. -/
def follow (f : Folder) (here : Names) : List String → Option Names
  | [] => some here
  | part :: rest =>
    if !f.isDir here then none
    else if part = "" || part = "." then f.follow here rest
    else if part = ".." then f.follow here.above rest
    else f.follow (here ++ [part]) rest

/-- Where a written path leads. The empty path leads nowhere. -/
def resolve (f : Folder) (path : String) : Option Names :=
  if path.isEmpty then none else f.follow (pathStart path) (pathParts path)

/-- Whether the path leads to a directory. -/
def isDirAt (f : Folder) (path : String) : Bool := (f.resolve path).any f.isDir

/-- The bytes of the file that the path leads to. -/
def fileAt? (f : Folder) (path : String) : Option (List UInt8) := (f.resolve path).bind f.file?

end Folder

/-- The written path of an entry of a directory. -/
def joinPath (dir name : String) : String :=
  if dir.isEmpty || Text.endsWith ['/'] dir.toList then dir ++ name else s!"{dir}/{name}"

/-- A file that is there but could not be used. -/
inductive FileFault where
  | notText (path : String)
  | malformed (path : String)
  deriving DecidableEq, Repr

/-- The message about a fault. -/
def FileFault.message : FileFault → String
  | notText path => s!"failed to read {path}: stream did not contain valid UTF-8"
  | malformed path => s!"failed to parse {path}: malformed JSON"

/-- Reads a file with `parse`; a file that is not there is no fault. -/
def Folder.load {α : Type} (f : Folder) (path : String) (parse : Text → Option α) : Except FileFault (Option α) :=
  match f.fileAt? path with
  | none => .ok none
  | some bytes =>
    match Utf8.text? bytes with
    | none => .error (.notText path)
    | some t =>
      match parse t with
      | none => .error (.malformed path)
      | some v => .ok (some v)

end Checkup
