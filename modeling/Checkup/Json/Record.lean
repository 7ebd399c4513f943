import Checkup.Json.Tree

/-!
# Records in JSON

A record has named fields. In JSON it is an object, of which other members are ignored, or an array with the
fields in order. `Tree.record?` reads either form; a field occurs at most once. The fields are then read one by one:

* `Record.required`: the field has to be there.
* `Record.orElse`: a default stands in for a field that is not there.
* `Record.optional`: a field that is null or not there has no value. An array has to reach it.
-/

namespace Checkup.Json

/-- The fields of a record that are there. -/
structure Record where
  fields : List (String × Tree)
  isArray : Bool

namespace Tree

/-- The record with the given field names. Every key needs a text, also one that is ignored. -/
def record? (names : List String) : Tree → Option Record
  | object members => do
    let fields ← members.mapM fun (k, v) => k.map (·, v)
    let known := fields.filter fun (k, _) => names.contains k
    if (known.map Prod.fst).Nodup then some ⟨known, false⟩ else none
  | array items => if items.length ≤ names.length then some ⟨names.zip items, true⟩ else none
  | _ => none

/-- A string. -/
def string? : Tree → Option String
  | string s => s
  | _ => none

/-- A truth value. -/
def bool? : Tree → Option Bool
  | bool b => some b
  | _ => none

/-- A natural number below `bound`. -/
def natBelow? (bound : Nat) : Tree → Option Nat
  | numeral n =>
    match n.value with
    | some (.nat k) => if k < bound then some k else none
    | _ => none
  | _ => none

/-- A natural number of 64 bits. -/
def word64? : Tree → Option Nat := natBelow? (pow2 64)

/-- A natural number of 32 bits. -/
def word32? : Tree → Option Nat := natBelow? (pow2 32)

/-- A number as a double. -/
def double? : Tree → Option Float
  | numeral n => n.value.map Number.toFloat
  | _ => none

/-- A list, all of whose items `read` can read. -/
def list? {α : Type} (read : Tree → Option α) : Tree → Option (List α)
  | array items => items.mapM read
  | _ => none

/-- A dictionary: of members with one key the last counts, and they come in the order of their keys. -/
def dictionary? (read : Tree → Option String) : Tree → Option (List (String × String))
  | object members => do
    let pairs ← members.mapM fun (k, v) => do return (← k, ← read v)
    return pairs.foldl (fun done (k, v) => insertMember k v done) []
  | _ => none

/-- Null has no value, anything else is read. -/
def nullable? {α : Type} (read : Tree → Option α) : Tree → Option (Option α)
  | null => some none
  | v => (read v).map some

/-- One of the named cases: its name, or an object whose only member has that key and null. -/
def case? {α : Type} (cases : List (String × α)) : Tree → Option α
  | string (some s) => cases.lookup s
  | object [(some s, null)] => cases.lookup s
  | _ => none

end Tree

namespace Record

variable {α : Type}

/-- A field that has to be there. -/
def required (r : Record) (name : String) (read : Tree → Option α) : Option α :=
  (r.fields.lookup name).bind read

/-- A field that has a default. -/
def orElse (r : Record) (name : String) (default : α) (read : Tree → Option α) : Option α :=
  match r.fields.lookup name with
  | none => some default
  | some v => read v

/-- A field that may be null, or missing unless the record is an array. -/
def optional (r : Record) (name : String) (read : Tree → Option α) : Option (Option α) :=
  match r.fields.lookup name with
  | none => if r.isArray then none else some none
  | some v => Tree.nullable? read v

end Record

end Checkup.Json
