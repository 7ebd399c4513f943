import Mathlib.Data.List.Forall2
import Checkup.Proofs.Json.Member

/-!
# Values of arrays and objects

The value of an array is made of the values of its items (`Tree.valueIn_array`), that of an object of the values of its
members, in the order of their keys (`Tree.valueIn_object`). Arrays and objects may be nested one level deeper than what
is in them. A tree has a value if its strings have a text, its numbers are in the range of the doubles, and it is not
nested too deep (`Tree.IsReadable.exists_value`).
-/

namespace Checkup.Json.Tree

variable {depth : Nat} {trees : List Tree} {values : List Json} {written : List (Option String × Tree)}
  {members ordered done : List (String × Json)}

theorem itemsIn_of_forall₂ (h : List.Forall₂ (fun t v => valueIn depth t = some v) trees values) :
    itemsIn depth trees = some values := by
  induction h with
  | nil => rw [itemsIn]
  | cons hv _ ih => rw [itemsIn, hv, ih]; rfl

theorem membersIn_of_forall₂
    (h : List.Forall₂ (fun w m => w.1 = some m.1 ∧ valueIn depth w.2 = some m.2) written members) :
    membersIn depth done written = some (members.foldl (fun done m => insertMember m.1 m.2 done) done) := by
  induction h generalizing done with
  | nil => rw [membersIn, List.foldl_nil]
  | @cons w m _ _ hm _ ih =>
    obtain ⟨hkey, hvalue⟩ := hm
    obtain ⟨k, t⟩ := w
    simp only at hkey hvalue
    rw [membersIn, hkey, hvalue]
    exact ih

theorem valueIn_array (h : List.Forall₂ (fun t v => valueIn depth t = some v) trees values) :
    valueIn (depth + 1) (.array trees) = some (.array values) := by
  rw [valueIn, if_neg (Nat.succ_ne_zero depth), Nat.add_sub_cancel, itemsIn_of_forall₂ h, Option.map_some]

theorem valueIn_object
    (h : List.Forall₂ (fun w m => w.1 = some m.1 ∧ valueIn depth w.2 = some m.2) written members)
    (hordered : Increasing ordered) (hperm : members.Perm ordered) :
    valueIn (depth + 1) (.object written) = some (.object ordered) := by
  rw [valueIn, if_neg (Nat.succ_ne_zero depth), Nat.add_sub_cancel, membersIn_of_forall₂ h,
    foldl_insertMember_eq hordered hperm, Option.map_some]

/-- An object with one member. -/
theorem valueIn_object_singleton {k : String} {t : Tree} {v : Json} (h : valueIn depth t = some v) :
    valueIn (depth + 1) (.object [(some k, t)]) = some (.object [(k, v)]) :=
  valueIn_object (.cons ⟨rfl, h⟩ .nil) (List.pairwise_singleton _ _) (.refl _)

/-! ## Trees with a value -/

/-- Whether arrays and objects are nested at most `depth` deep in the tree, with strings that have a text and numbers in
the range of the doubles. -/
inductive IsReadable : Nat → Tree → Prop where
  | null {depth : Nat} : IsReadable depth .null
  | bool {depth : Nat} (b : Bool) : IsReadable depth (.bool b)
  | string {depth : Nat} (s : String) : IsReadable depth (.string (some s))
  | numeral {depth : Nat} {n : Numeral} : n.value.isSome = true → IsReadable depth (.numeral n)
  | array {depth : Nat} {items : List Tree} : (∀ t ∈ items, IsReadable depth t) → IsReadable (depth + 1) (.array items)
  | object {depth : Nat} {members : List (Option String × Tree)} :
      (∀ m ∈ members, m.1.isSome = true) → (∀ m ∈ members, IsReadable depth m.2) →
      IsReadable (depth + 1) (.object members)

theorem exists_itemsIn (h : ∀ t ∈ trees, ∃ v, valueIn depth t = some v) : ∃ vs, itemsIn depth trees = some vs := by
  induction trees with
  | nil => exact ⟨[], by rw [itemsIn]⟩
  | cons t trees ih =>
    obtain ⟨⟨v, hv⟩, htrees⟩ := List.forall_mem_cons.mp h
    obtain ⟨vs, hvs⟩ := ih htrees
    exact ⟨v :: vs, by rw [itemsIn, hv, hvs]; rfl⟩

theorem exists_membersIn (hkeys : ∀ m ∈ written, m.1.isSome = true) (h : ∀ m ∈ written, ∃ v, valueIn depth m.2 = some v)
    (done : List (String × Json)) : ∃ members, membersIn depth done written = some members := by
  induction written generalizing done with
  | nil => exact ⟨done, by rw [membersIn]⟩
  | cons m written ih =>
    obtain ⟨k, t⟩ := m
    obtain ⟨hkey, hkeys'⟩ := List.forall_mem_cons.mp hkeys
    obtain ⟨⟨v, hv⟩, h'⟩ := List.forall_mem_cons.mp h
    obtain ⟨k, rfl⟩ := Option.isSome_iff_exists.mp hkey
    obtain ⟨members, hmembers⟩ := ih hkeys' h' (insertMember k v done)
    exact ⟨members, by rw [membersIn, hv]; exact hmembers⟩

theorem IsReadable.exists_valueIn {t : Tree} (h : t.IsReadable depth) : ∃ v, valueIn depth t = some v := by
  induction h with
  | null => exact ⟨.null, by rw [valueIn]⟩
  | bool b => exact ⟨.bool b, by rw [valueIn]⟩
  | string s => exact ⟨.string s, by rw [valueIn]; rfl⟩
  | numeral hn =>
    obtain ⟨n, hn⟩ := Option.isSome_iff_exists.mp hn
    exact ⟨.number n, by rw [valueIn, hn]; rfl⟩
  | @array depth items _ ih =>
    obtain ⟨vs, hvs⟩ := exists_itemsIn ih
    exact ⟨.array vs, by rw [valueIn, if_neg (Nat.succ_ne_zero depth), Nat.add_sub_cancel, hvs]; rfl⟩
  | @object depth members hkeys _ ih =>
    obtain ⟨ms, hms⟩ := exists_membersIn hkeys ih []
    exact ⟨.object ms, by rw [valueIn, if_neg (Nat.succ_ne_zero depth), Nat.add_sub_cancel, hms]; rfl⟩

/-- A tree that is not nested too deep has a value. -/
theorem IsReadable.exists_value {t : Tree} (h : t.IsReadable maxDepth) : ∃ v, t.value = some v := h.exists_valueIn

end Checkup.Json.Tree
