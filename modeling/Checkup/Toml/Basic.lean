import Checkup.Text.Basic

/-!
# TOML values

A document is a table that its lines build up one after the other. A table remembers how it came about, because that
decides what may still be added to it:

* under a `[header]` of its own,
* on the way to the table of a header,
* through a dotted key,
* between braces; such a table is closed.

The main operations are `Toml.addPair`, for a line `a.b = v`, and `Toml.openTable` and `Toml.openItem`, for headers.
-/

namespace Checkup

/-- How a table came about. -/
inductive TableOrigin where
  | header
  | onTheWay
  | dotted
  | inline
  deriving DecidableEq, Repr

/-- A value. Settings hold no dates and no numbers other than integers, so what those are is not kept. -/
inductive Toml where
  | string (s : String)
  | integer (n : Int)
  | real
  | datetime
  | bool (b : Bool)
  | array (items : List Toml)
  | table (origin : TableOrigin) (entries : List (String × Toml))
  /-- the tables under one header in double brackets -/
  | tables (items : List Toml)

namespace Toml

/-- The document without lines. -/
def empty : Toml := table .header []

/-- The entries with a value for a key, in place of one that is there. -/
def setEntry (key : String) (v : Toml) : List (String × Toml) → List (String × Toml)
  | [] => [(key, v)]
  | (k, w) :: es => if k = key then (k, v) :: es else (k, w) :: setEntry key v es

/-- Changes a table, or the last one of several. -/
def onTable (f : Toml → Option Toml) : Toml → Option Toml
  | table origin entries => f (table origin entries)
  | tables items =>
    match items.reverse with
    | [] => none
    | last :: before => (f last).map fun t => tables (before.reverse ++ [t])
  | _ => none

/-- Whether a path may lead through the value. A dotted key must not lead into a table that has a header. -/
def isOpen (isDotted : Bool) : Toml → Bool
  | table .header _ => !isDotted
  | table .inline _ => false
  | table _ _ => true
  | tables _ => true
  | _ => false

/-- Changes the table at the end of a path. Tables on the path that are not there come about on the way. -/
def update (isDotted : Bool) (f : Toml → Option Toml) : List String → Toml → Option Toml
  | [], t => f t
  | key :: path, table origin entries =>
    let child := (entries.lookup key).getD (table (if isDotted then .dotted else .onTheWay) [])
    if isOpen isDotted child then
      (onTable (update isDotted f path) child).map fun t => table origin (setEntry key t entries)
    else none
  | _ :: _, _ => none

/-- Changes the entry of a key in a table. -/
def alter (key : String) (f : Option Toml → Option Toml) : Toml → Option Toml
  | table origin entries => (f (entries.lookup key)).map fun v => table origin (setEntry key v entries)
  | _ => none

/-- Adds a value under a key that is new. A dotted key leads to a table that dotted keys made, any other stays in the
table at hand, which they did not make. -/
def addEntry (isDotted : Bool) (key : String) (v : Toml) : Toml → Option Toml
  | table origin entries =>
    if (origin == .dotted) == isDotted then alter key (fun old => if old.isSome then none else some v)
      (table origin entries)
    else none
  | _ => none

/-- Adds the value of a line or pair `a.b = v`. -/
def addPair (path : List String) (key : String) (v : Toml) (t : Toml) : Option Toml :=
  update true (addEntry (!path.isEmpty) key v) path t

/-- The table under a header, which may have come about on the way but under no other header. -/
def openEntry : Option Toml → Option Toml
  | none => some (table .header [])
  | some (table .onTheWay entries) => some (table .header entries)
  | some _ => none

/-- One more table under a header in double brackets. -/
def pushEntry : Option Toml → Option Toml
  | none => some (tables [table .header []])
  | some (tables items) => some (tables (items ++ [table .header []]))
  | some _ => none

/-- Starts the table of a header. -/
def openTable (path : List String) (key : String) (t : Toml) : Option Toml :=
  update false (alter key openEntry) path t

/-- Starts the next table of a header in double brackets. -/
def openItem (path : List String) (key : String) (t : Toml) : Option Toml :=
  update false (alter key pushEntry) path t

/-- The value of a key. -/
def get? (key : String) : Toml → Option Toml
  | table _ entries => entries.lookup key
  | _ => none

end Toml

end Checkup
