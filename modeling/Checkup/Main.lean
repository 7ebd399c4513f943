import Checkup.Cli.Run
import Checkup.Cli.Usage
import Std.Time

/-!
# The program

Reads the project from disk, does the run, and puts its outcome on the terminal and on disk. No other program is
started, so there is no linter and no audit.
-/

namespace Checkup

/-- The bytes of a file on disk, if it can be read. -/
def readFile? (path : String) : IO (Option (List UInt8)) := do
  match ← (IO.FS.readBinFile path).toBaseIO with
  | .ok bytes => return some bytes.toList
  | .error _ => return none

/-- Adds a file on disk to a folder, if it can be read. -/
def readInto (f : Folder) (path : String) (names : Names) : IO Folder := do
  match ← readFile? path with
  | some bytes => return { f with files := ⟨names, bytes⟩ :: f.files }
  | none => return f

/-- What is in a directory on disk, nothing if it cannot be read. -/
def readEntries (path : String) : IO (List IO.FS.DirEntry) := do
  let dir : IO.FS.DirEntry := ⟨path, ""⟩
  match ← dir.root.readDir.toBaseIO with
  | .ok entries => return entries.toList
  | .error _ => return []

/-- Adds a directory on disk and all below it to a folder. Of directories that hold no sources only the ignore rules of
a repository are read. -/
partial def readTree (f : Folder) (path : String) (names : Names) : IO Folder := do
  let addEntry (f : Folder) (entry : IO.FS.DirEntry) : IO Folder := do
    let file := joinPath path entry.fileName
    let below := names ++ [entry.fileName]
    match (← entry.path.symlinkMetadata).type with
    | .file => readInto f file below
    | .dir =>
      if excludedDirs.contains entry.fileName then
        readInto { f with dirs := below :: f.dirs } (joinPath file "info/exclude") (below ++ ["info", "exclude"])
      else readTree { f with dirs := below :: f.dirs } file below
    | _ => return f
  (← readEntries path).foldlM addEntry f

/-- The part of the disk that a scan of a path looks at: the working directory, or what is below a path that leads out
of it. -/
def readFolder (path : String) : IO Folder :=
  let names := pathNames path
  if names.head? == some ".." || names.head? == some "/" then readTree ⟨[], []⟩ path names
  else readTree ⟨[], []⟩ "." []

/-- Writes the report in Markdown to disk, if the outcome of the run has one. -/
def writeReport (a : Arguments) (o : RunOutcome) : IO Unit := do
  match a.markdown with
  | none => return
  | some path =>
    match o.folder.fileAt? path with
    | none => return
    | some bytes =>
      let parent := parentPath path
      unless parent.isEmpty do IO.FS.createDirAll parent
      IO.FS.writeBinFile path ⟨bytes.toArray⟩

/-- Does the run that the arguments ask for and gives its exit code. -/
def perform (a : Arguments) : IO Nat := do
  let output ← IO.getStdout
  let notices ← IO.getStderr
  let start ← IO.monoMsNow
  let folder ← readFolder a.path
  let now ← Std.Time.PlainDateTime.now
  let time := now.format "uuuu-MM-dd HH:mm:ss"
  let o := a.run ⟨.empty, folder, ← output.isTty, (← IO.monoMsNow) - start, time⟩
  output.putStr o.output
  notices.putStr (String.join (o.notices.map printed))
  match o.fault with
  | none => writeReport a o
  | some fault => notices.putStrLn s!"Error: {fault.message}"
  return o.exitCode

end Checkup

open Checkup in
/-- The program. -/
def main (words : List String) : IO UInt32 := do
  match Arguments.parse words with
  | .ok a => return UInt32.ofNat (← perform a)
  | .error stop =>
    let stream ← if stop.isQuestion then IO.getStdout else IO.getStderr
    stream.putStr stop.message
    return UInt32.ofNat stop.exitCode
