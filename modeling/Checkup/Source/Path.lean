import Checkup.Text.Lowercase

/-!
# Kinds of paths

What the path of a file says about it: `isScript`, `isJsx`, `isTest` and `inDirectory`.
-/

namespace Checkup.Path

/-- The extensions of source files. -/
def scriptExtensions : List String := ["js", "jsx", "ts", "tsx", "mjs", "cjs", "mts", "cts"]

/-- The name of the file. -/
def fileName (path : Text) : Text := Text.lastPiece (· == '/') path

/-- What follows the last dot of the file name. -/
def extension? (path : Text) : Option Text :=
  let name := fileName path
  if name.contains '.' then some (Text.lastPiece (· == '.') name) else none

/-- Whether the file is a source file. The case of the extension does not count. -/
def isScript (path : String) : Bool :=
  (extension? path.toList).any fun e => scriptExtensions.contains (String.ofList (Text.toLowerAscii e))

/-- Whether the file holds components. The case of the extension counts. -/
def isJsx (path : String) : Bool :=
  (extension? path.toList).any fun e => e == "jsx".toList || e == "tsx".toList

/-- Directories of tests. -/
def testDirectories : List String := ["__tests__", "tests", "e2e"]

/-- Whether the file is a test, by its name or by a directory above it. -/
def isTest (path : String) : Bool :=
  let lower := Text.toLower path.toList
  [".test.", ".spec.", ".stories."].any (fun mark => Text.occurs mark.toList (fileName lower)) ||
    testDirectories.any fun dir =>
      Text.startsWith (dir.toList ++ ['/']) lower || Text.occurs ('/' :: dir.toList ++ ['/']) lower

/-- Whether a directory above the file has the name. -/
def inDirectory (path dir : String) : Bool :=
  ((Text.split (· == '/') path.toList).dropLast).contains dir.toList

end Checkup.Path
