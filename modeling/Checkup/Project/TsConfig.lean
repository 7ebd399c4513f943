import Checkup.Json.Lenient
import Checkup.Json.Record

/-!
# Compiler options

What `tsconfig.json` says about a project. The file may hold comments and trailing commas.
-/

namespace Checkup

open Json (Tree)

/-- The compiler options that a scan reads. -/
structure TsConfig where
  strict : Option Bool
  jsx : Option String
  target : Option String
  deriving DecidableEq, Repr

namespace TsConfig

/-- The name of the file. -/
def fileName : String := "tsconfig.json"

/-- No options. -/
def empty : TsConfig := ⟨none, none, none⟩

/-- The options of an object. -/
def ofOptions (v : Tree) : Option TsConfig := do
  let r ← v.record? ["strict", "jsx", "target"]
  return {
    strict := ← r.orElse "strict" none (Tree.nullable? Tree.bool?)
    jsx := ← r.orElse "jsx" none (Tree.nullable? Tree.string?)
    target := ← r.orElse "target" none (Tree.nullable? Tree.string?) }

/-- The options in the object of the whole file. -/
def ofTree (v : Tree) : Option TsConfig := do
  let r ← v.record? ["compilerOptions"]
  r.orElse "compilerOptions" empty ofOptions

/-- The options of a text. -/
def parse (t : Text) : Option TsConfig := (Json.Lenient.parseTree t).bind ofTree

/-- Whether the strict checks are on. -/
def isStrict (c : TsConfig) : Bool := c.strict == some true

end TsConfig

end Checkup
