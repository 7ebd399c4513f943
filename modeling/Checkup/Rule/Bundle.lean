import Checkup.Rule.Basic
import Checkup.Rule.Tables
import Checkup.Source.Import

/-!
# Rules about the size of the bundle

Imports that pull more code into the first download than the page needs.
-/

namespace Checkup

open Pattern

/-- The line of a text that holds a byte offset, without its line feed. -/
def Text.lineAt (t : Text) (offset : Nat) : Text :=
  let before := takeBytes offset t
  (before.reverse.takeWhile (· != '\n')).reverse ++ (dropBytes offset t).takeWhile (· != '\n')

/-- The start of an import at the start of a line. Group 1 is there if it imports types only. -/
def importStart : Pattern := seqAll [lineStart, spaces, lit "import", gap, opt (group 1 (lit "type" ++ gap))]

/-- The end of an import. The group is the specifier. -/
def importEnd (n : Nat) : Pattern :=
  seqAll [lit "from", blanks, quote, group n (many1 (butNot ['\'', '\"', '\n'])), quote]

/-- An import that binds names (group 2) from a module (group 3). -/
def staticImport : Pattern :=
  seqAll [importStart,
    group 2 (one (fun c => c.isName || c == '*' || c == '\x7b') ++ few (butNot ['\'', '\"', ';'])), blanks, importEnd 3]

/-- An import of names in braces from a module (group 2). -/
def namedImport : Pattern :=
  seqAll [importStart, opt (seqAll [many1 Char.isName, blanks, lit ",", blanks]), enclosed '\x7b' '\x7d', blanks,
    importEnd 2]

/-- The name of the package of utilities, in quotation marks. -/
def lodashName : Pattern := quote ++ lit "lodash" ++ quote

/-- An import of the whole package of utilities. -/
def lodashImport : Pattern :=
  alt
    (seqAll [lineStart, spaces, lit "import", gap,
      alt (seqAll [lit "*", blanks, lit "as", gap, many1 Char.isName]) (many1 Char.isName), blanks,
      opt (seqAll [lit ",", blanks, enclosed '\x7b' '\x7d', blanks]), lit "from", blanks, lodashName])
    (seqAll [wordBoundary, lit "require(", blanks, lodashName, blanks, lit ")"])

/-- The specifiers that a pattern finds in its group `n`, unless types only are imported, and where each import
starts. -/
def valueImports (p : Pattern) (n : Nat) (content : Text) : List ImportRef :=
  (p.findAll content).filterMap fun m =>
    if (m.group? 1).isSome then none else (m.group? n).map fun spec => ⟨spec.text, m.inkStart⟩

/-- Describes `heavyImport`. -/
def heavyImportInfo : RuleInfo where
  id := "bundle-dynamic-imports"
  title := "Heavy library imported statically"
  impact := .critical
  severity := .performance
  description := "Large editor, chart, animation and map libraries should be loaded lazily."
  referenceUrl := "https://nextjs.org/docs/app/building-your-application/optimizing/lazy-loading"

/-- Whether the specifier belongs to a heavy package. -/
def RuleTables.isHeavy (tables : RuleTables) (specifier : Text) : Bool :=
  (rootPackage specifier).any fun package =>
    tables.heavyPackages.any fun entry => packageMatches entry.toList package

/-- Reports imports of heavy packages that are not loaded when needed. -/
def heavyImport (tables : RuleTables) : Rule := heavyImportInfo.rule [["import"]] fun _ content =>
  ((valueImports staticImport 3 content).filter fun r =>
    tables.isHeavy r.specifier &&
      ["dynamic(", "lazy(", "import("].all fun call => !(Text.lineAt content r.offset).has call).map fun r =>
    Spot.atOffset content r.offset
      s!"`{String.ofList r.specifier}` is imported statically and lands in the initial bundle"
      "Load it on demand with `next/dynamic` or `React.lazy(() => import(...))`"

/-- Describes `barrelImport`. -/
def barrelImportInfo : RuleInfo where
  id := "bundle-barrel-imports"
  title := "Named import from a barrel package"
  impact := .critical
  severity := .performance
  description := "Named imports from barrel entry points pull in far more modules than used."
  referenceUrl := "https://vercel.com/blog/how-we-optimized-package-imports-in-next-js"

/-- Reports names imported from packages whose entry exports everything again. -/
def barrelImport (tables : RuleTables) : Rule := barrelImportInfo.rule [["import"]] fun _ content =>
  ((valueImports namedImport 2 content).filter fun r =>
    tables.barrelPackages.any fun entry => packageMatches entry.toList r.specifier).map fun r =>
    Spot.atOffset content r.offset s!"named import from barrel package `{String.ofList r.specifier}`"
      "Import from the specific module path, or list the package in `experimental.optimizePackageImports`"

/-- Describes `lodashFull`. -/
def lodashFullInfo : RuleInfo where
  id := "bundle-lodash-full"
  title := "Whole lodash imported"
  impact := .critical
  severity := .performance
  description := "Importing the lodash root pulls the entire library into the bundle."
  referenceUrl := "https://lodash.com/per-method-packages"

/-- Reports imports of the whole package of utilities. -/
def lodashFull : Rule := lodashFullInfo.rule [["lodash"]] fun _ content =>
  (lodashImport.findAll content).map fun m =>
    Spot.atOffset content m.inkStart "the whole `lodash` package is imported"
      "Import single functions: `import debounce from \"lodash/debounce\"`, or use `lodash-es`"

end Checkup
