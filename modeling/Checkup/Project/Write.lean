import Checkup.Project.Folder

/-!
# Writing files

`Folder.write` puts a file under a written path and makes the directories that lead there. Nothing is written if a
file is in the way of a directory, or a directory in the way of the file.
-/

namespace Checkup

/-- Why a file cannot be written. -/
inductive WriteFault where
  | noDirectory (path : String)
  | noFile (path : String)
  deriving DecidableEq, Repr

/-- Parts of a path without those at the end that lead nowhere. The first part stays if it says `.`. -/
def dropIdleParts (parts : List String) : List String :=
  match parts with
  | "." :: rest => "." :: dropIdle rest
  | _ => dropIdle parts
where
  dropIdle (parts : List String) : List String :=
    (parts.reverse.dropWhile fun p => p == "" || p == ".").reverse

/-- The parts of the path of the directory that an entry is in. -/
def parentParts (path : String) : List String := dropIdleParts (dropIdleParts (pathParts path)).dropLast

/-- The path of the directory that an entry is in. It is empty for an entry of the folder itself. -/
def parentPath (path : String) : String :=
  let parts := parentParts path
  if parts.isEmpty && pathStart path == .top then "/" else "/".intercalate parts

namespace Folder

/-- Goes on from a directory along the parts of a path and makes the directories that are not there. A file in the way
stops it. -/
def makeDirs (f : Folder) (here : Names) : List String → Option (Folder × Names)
  | [] => some (f, here)
  | part :: rest =>
    if part = "" || part = "." then f.makeDirs here rest
    else if part = ".." then f.makeDirs here.above rest
    else
      let next := here ++ [part]
      if (f.file? next).isSome then none
      else if f.isDir next then f.makeDirs next rest
      else ({ f with dirs := f.dirs ++ [next] }).makeDirs next rest

/-- Writes a file under a path. -/
def write (f : Folder) (path : String) (bytes : List UInt8) : Except WriteFault Folder :=
  match f.makeDirs (pathStart path) (parentParts path) with
  | none => .error (.noDirectory (parentPath path))
  | some (f, dir) =>
    let name := (pathParts path).getLast?.getD ""
    if ["", ".", ".."].contains name || f.isDir (dir ++ [name]) then .error (.noFile path)
    else .ok (f.put ⟨dir ++ [name], bytes⟩)

end Folder

end Checkup
