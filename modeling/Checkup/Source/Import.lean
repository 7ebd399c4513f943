import Checkup.Pattern.Class

/-!
# Imports

* `imports`: the module specifiers that a source imports, re-exports or requires.
* `rootPackage`: the package that a specifier belongs to.
* `packageMatches`: whether a package is one that an entry of a table stands for.
-/

namespace Checkup

open Pattern

/-- A module specifier and the offset where it starts. -/
structure ImportRef where
  specifier : Text
  offset : Nat

/-- What leads up to the quotation mark of a specifier: an import, a re-export, a dynamic import or a call of
`require`. -/
def importLead : Pattern :=
  anyOf [
    seqAll [lineStart, blanks, lit "import", gap, opt (lit "type" ++ gap),
      opt (few (butNot ['\'', '\"', ';']) ++ blanks ++ lit "from" ++ blanks)],
    seqAll [lineStart, blanks, lit "export", gap, opt (lit "type" ++ gap),
      alt (lit "*") (enclosed '\x7b' '\x7d'), blanks,
      opt (lit "as" ++ gap ++ many1 Char.isName ++ blanks), lit "from", blanks],
    seqAll [wordBoundary, lit "import", blanks, lit "(", blanks],
    seqAll [wordBoundary, lit "require", blanks, lit "(", blanks]]

/-- A module specifier (group 1) in quotation marks and what leads up to it. -/
def importPattern : Pattern :=
  importLead ++ quote ++ group 1 (many1 (butNot ['\'', '\"', '\n'])) ++ quote

/-- The module specifiers of a source, in order. -/
def imports (content : Text) : List ImportRef :=
  (importPattern.findAll content).filterMap fun m => (m.group? 1).map fun g => ⟨g.text, g.start⟩

/-- How specifiers start that belong to no package. -/
def localLeads : List String := [".", "/", "@/", "~/", "#", "node:"]

/-- The part of a text before the `n`th separator, counted from zero; all of it if there are not that many. -/
def Text.beforeNth (sep : Char) : Nat → Text → Text
  | _, [] => []
  | n, c :: t =>
    if c = sep then
      match n with
      | 0 => []
      | n + 1 => c :: beforeNth sep n t
    else c :: beforeNth sep n t

/-- The package that a specifier belongs to: its first part, or its first two parts if it starts with a scope. Local
specifiers and builtin modules belong to none. -/
def rootPackage (specifier : Text) : Option Text :=
  if specifier.isEmpty || localLeads.any (fun lead => Text.startsWith lead.toList specifier) then none
  else if specifier.head? = some '@' then
    if specifier.contains '/' then some (Text.beforeNth '/' 1 specifier) else none
  else some (Text.beforeNth '/' 0 specifier)

/-- Whether the entry stands for the package: an entry that ends in `/*` for all packages below it, one that ends in
`*` for all longer names that start with it, any other for itself. -/
def packageMatches (entry package : Text) : Bool :=
  match Text.before? "/*".toList entry with
  | some scope => (Text.after? scope package).any fun rest => rest.head? == some '/'
  | none =>
    match Text.before? ['*'] entry with
    | some lead => (Text.after? lead package).any fun rest => !rest.isEmpty
    | none => entry == package

end Checkup
