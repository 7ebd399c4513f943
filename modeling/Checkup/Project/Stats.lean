import Checkup.Vulnerability

/-!
# Project statistics

`ProjectStats` describes a project: its versions, how many files it has, and how many of its components run in the
browser.
-/

namespace Checkup

open Json (Tree)

/-- A file with more lines than the limit. -/
structure OversizedFile where
  path : String
  lines : Nat
  deriving DecidableEq, Repr

/-- A description of a project. -/
structure ProjectStats where
  reactVersion : Option String
  nextVersion : Option String
  usesNext : Bool
  totalFiles : Nat
  clientComponents : Nat
  serverComponents : Nat
  oversizedFiles : List OversizedFile
  typescriptStrict : Bool
  jsx : Option String
  target : Option String
  deriving DecidableEq, Repr

/-- The file as an object. -/
def OversizedFile.toJson (f : OversizedFile) : Json := .object [("path", .string f.path), ("lines", .nat f.lines)]

/-- The file of an object. -/
def OversizedFile.ofTree (v : Tree) : Option OversizedFile := do
  let r ← v.record? ["path", "lines"]
  return ⟨← r.required "path" Tree.string?, ← r.required "lines" Tree.word64?⟩

namespace ProjectStats

/-- The number of components. -/
def components (s : ProjectStats) : Nat := s.clientComponents + s.serverComponents

/-- The part of the components that run in the browser, if there are components. -/
def clientRatio (s : ProjectStats) : Option Float :=
  if s.components = 0 then none else some (Float.ofNat s.clientComponents / Float.ofNat s.components)

/-- The statistics as an object. -/
def toJson (s : ProjectStats) : Json :=
  .object [("react_version", .optString s.reactVersion), ("next_version", .optString s.nextVersion),
    ("uses_next", .bool s.usesNext), ("total_files", .nat s.totalFiles),
    ("client_components", .nat s.clientComponents), ("server_components", .nat s.serverComponents),
    ("oversized_files", .array (s.oversizedFiles.map OversizedFile.toJson)),
    ("typescript_strict", .bool s.typescriptStrict), ("jsx", .optString s.jsx), ("target", .optString s.target)]

/-- The statistics of an object. -/
def ofTree (v : Tree) : Option ProjectStats := do
  let r ← v.record? ["react_version", "next_version", "uses_next", "total_files", "client_components",
    "server_components", "oversized_files", "typescript_strict", "jsx", "target"]
  return {
    reactVersion := ← r.optional "react_version" Tree.string?
    nextVersion := ← r.optional "next_version" Tree.string?
    usesNext := ← r.required "uses_next" Tree.bool?
    totalFiles := ← r.required "total_files" Tree.word64?
    clientComponents := ← r.required "client_components" Tree.word64?
    serverComponents := ← r.required "server_components" Tree.word64?
    oversizedFiles := ← r.required "oversized_files" (Tree.list? OversizedFile.ofTree)
    typescriptStrict := ← r.required "typescript_strict" Tree.bool?
    jsx := ← r.optional "jsx" Tree.string?
    target := ← r.optional "target" Tree.string? }

end ProjectStats

end Checkup
