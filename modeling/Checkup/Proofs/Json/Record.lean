import Checkup.Json.Record
import Checkup.Proofs.Decimal.Shortest
import Checkup.Proofs.Json.Pretty

/-!
# Written values are read back

* `natBelow?_ofJson`, `list?_ofJson`, `nullable?_optString` and the like: a value is read as what it was written from.
* `reread`: what a double is read as. It is one if the double is finite (`reread_isSome`).
* `record?_ofJson`: an object is read as the record of its members, and a field is what the member of its name is
  read as.
-/

namespace Checkup.Json

variable {α β : Type} {n bound : Nat} {x : Float} {name : String} {names : List String}
  {members : List (String × Json)}

/-! ## Numbers -/

deriving instance DecidableEq for Numeral

theorem Numeral.value_nat (hn : n < 2 ^ 64) : (Number.numeral (.nat n)).value = some (.nat n) := by
  have hw : n < pow2 64 := hn
  simp [Numeral.value, Number.numeral, Numeral.isInteger, hw, Decimal.ofDigits_toDigits]

/-- A numeral with a fraction or an exponent is a double. -/
theorem Numeral.value_of_not_isInteger {m : Numeral} (h : m.isInteger = false) : m.value = m.double.map .real := by
  simp [Numeral.value, h]

theorem isInteger_shortestNumeral (x : Float) : (Decimal.shortestNumeral x).isInteger = false := by
  have hpadded (width k : Nat) : (Decimal.padded width k).toList ≠ [] := (Decimal.isDigits_padded width k).ne_nil
  unfold Decimal.shortestNumeral Decimal.digitsNumeral
  dsimp only
  repeat' split
  all_goals simp [Numeral.isInteger, hpadded]

/-- What a double is read as that was written with the fewest digits: none if it was written as null. -/
def reread (x : Float) : Option Float := if x.isFinite then (Decimal.shortestNumeral x).double else none

theorem reread_isSome (x : Float) : (reread x).isSome = x.isFinite := by
  unfold reread
  split
  · rename_i h
    rw [h, Decimal.shortestNumeral_double h]
  · rename_i h
    simp [h]

namespace Tree

@[simp]
theorem string?_ofJson (s : String) : string? (ofJson (.string s)) = some s := rfl

@[simp]
theorem bool?_ofJson (b : Bool) : bool? (ofJson (.bool b)) = some b := rfl

theorem double?_ofJson (h : x.isFinite = true) : double? (ofJson (.number (.real x))) = reread x := by
  have hvalue := Numeral.value_of_not_isInteger (isInteger_shortestNumeral x)
  show (Decimal.shortestNumeral x).value.map Number.toFloat = reread x
  rw [hvalue, reread, if_pos h, Option.map_map]
  exact Option.map_id'

theorem natBelow?_ofJson (hn : n < bound) (hbound : bound ≤ 2 ^ 64) : natBelow? bound (ofJson (.nat n)) = some n := by
  rw [ofJson, natBelow?, Numeral.value_nat (hn.trans_le hbound)]
  exact if_pos hn

theorem word64?_ofJson (hn : n < 2 ^ 64) : word64? (ofJson (.nat n)) = some n := natBelow?_ofJson hn le_rfl

theorem word32?_ofJson (hn : n < 2 ^ 32) : word32? (ofJson (.nat n)) = some n := natBelow?_ofJson hn (by decide)

/-! ## Lists and missing values -/

theorem mapM_map {γ : Type} {read : β → Option γ} {f : α → β} {g : α → γ} {xs : List α}
    (h : ∀ x ∈ xs, read (f x) = some (g x)) : (xs.map f).mapM read = some (xs.map g) := by
  induction xs with
  | nil => rfl
  | cons x xs ih =>
    have hx := h x (List.mem_cons_self ..)
    have hxs := ih fun y hy => h y (List.mem_cons_of_mem _ hy)
    simp only [List.map_cons, List.mapM_cons, hx, hxs]
    rfl

theorem list?_ofJson {read : Tree → Option β} {write : α → Json} {f : α → β} {xs : List α}
    (h : ∀ x ∈ xs, read (ofJson (write x)) = some (f x)) :
    list? read (ofJson (.array (xs.map write))) = some (xs.map f) := by
  show (itemsOfJson (xs.map write)).mapM read = some (xs.map f)
  rw [itemsOfJson_eq, List.map_map]
  exact mapM_map h

/-- Items that are read back as they were. -/
theorem list?_ofJson_self {read : Tree → Option α} {write : α → Json} {xs : List α}
    (h : ∀ x ∈ xs, read (ofJson (write x)) = some x) : list? read (ofJson (.array (xs.map write))) = some xs := by
  rw [list?_ofJson (f := id) h, List.map_id]

@[simp]
theorem strings_ofJson (ss : List String) : list? string? (ofJson (strings ss)) = some ss :=
  list?_ofJson_self fun s _ => string?_ofJson s

@[simp]
theorem nullable?_string (s : String) : nullable? string? (ofJson (.string s)) = some (some s) := rfl

@[simp]
theorem nullable?_optString (s : Option String) : nullable? string? (ofJson (optString s)) = some s := by
  cases s <;> rfl

/-! ## Records -/

/-- The record of the members that have one of the names. -/
def recordOf (names : List String) (members : List (String × Json)) : Record :=
  ⟨(members.filter fun m => names.contains m.1).map fun m => (m.1, ofJson m.2), false⟩

@[simp]
theorem record?_ofJson (names : List String) (h : (members.map Prod.fst).Nodup) :
    (ofJson (.object members)).record? names = some (recordOf names members) := by
  have hkeys : (membersOfJson members).mapM (fun m : Option String × Tree => m.1.map (·, m.2)) =
      some (members.map fun m => (m.1, ofJson m.2)) := by
    rw [membersOfJson_eq]
    exact mapM_map fun _ _ => rfl
  have hread : (ofJson (.object members)).record? names =
      ((membersOfJson members).mapM fun m : Option String × Tree => m.1.map (·, m.2)).bind fun fields =>
        let known := fields.filter fun m => names.contains m.1
        if (known.map Prod.fst).Nodup then some ⟨known, false⟩ else none := rfl
  have hknown : (members.map fun m => (m.1, ofJson m.2)).filter (fun m => names.contains m.1) =
      (recordOf names members).fields := List.filter_map
  have hnodup : ((recordOf names members).fields.map Prod.fst).Nodup := by
    rw [recordOf, List.map_map]
    exact h.sublist (List.filter_sublist.map _)
  rw [hread, hkeys, Option.bind_some, hknown]
  exact if_pos hnodup

@[simp]
theorem lookup_cons_of_ne {key : String} {v : α} {ms : List (String × α)} (h : name ≠ key) :
    List.lookup name ((key, v) :: ms) = List.lookup name ms := by
  rw [List.lookup_cons, beq_eq_false_iff_ne.mpr h]

theorem lookup_recordOf (h : name ∈ names) :
    (recordOf names members).fields.lookup name = (members.lookup name).map ofJson := by
  induction members with
  | nil => rfl
  | cons m members ih =>
    obtain ⟨key, v⟩ := m
    rw [recordOf] at ih ⊢
    by_cases hkey : name = key
    · subst hkey
      have hknown : names.contains name = true := List.contains_iff_mem.mpr h
      rw [List.filter_cons, if_pos hknown, List.map_cons, List.lookup_cons_self, List.lookup_cons_self]
      rfl
    · rw [lookup_cons_of_ne hkey, ← ih, List.filter_cons]
      split
      · rw [List.map_cons, lookup_cons_of_ne hkey]
      · rfl

end Tree

namespace Record

open Json.Tree

@[simp]
theorem required_recordOf (read : Tree → Option α) (h : name ∈ names) :
    (recordOf names members).required name read = (members.lookup name).bind fun v => read (ofJson v) := by
  rw [required, lookup_recordOf h, Option.bind_map]
  rfl

@[simp]
theorem orElse_recordOf (default : α) (read : Tree → Option α) (h : name ∈ names) :
    (recordOf names members).orElse name default read =
      (members.lookup name).elim (some default) fun v => read (ofJson v) := by
  rw [orElse, lookup_recordOf h]
  cases members.lookup name <;> rfl

@[simp]
theorem optional_recordOf (read : Tree → Option α) (h : name ∈ names) :
    (recordOf names members).optional name read =
      (members.lookup name).elim (some none) fun v => nullable? read (ofJson v) := by
  rw [optional, lookup_recordOf h]
  cases members.lookup name <;> rfl

end Record

end Checkup.Json
