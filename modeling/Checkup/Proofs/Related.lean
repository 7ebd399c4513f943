import Mathlib.Data.List.Forall2

/-!
# Related options and lists

Two runs that agree are related by `Option.Rel` and `List.Forall₂`: there is the same number of results, and they are
related one by one. Functions that do not tell related results apart give the same.
-/

namespace Checkup

variable {α β γ : Type} {R S : α → β → Prop}

/-! ## Options -/

theorem rel_imp {a : Option α} {b : Option β} (h : Option.Rel R a b) (himp : ∀ x y, R x y → S x y) :
    Option.Rel S a b := by
  cases h with
  | none => exact .none
  | some h => exact .some (himp _ _ h)

/-- Choices of options that agree one by one. -/
theorem rel_or {a c : Option α} {b d : Option β} (hab : Option.Rel R a b) (hcd : Option.Rel R c d) :
    Option.Rel R (a.or c) (b.or d) := by
  cases hab with
  | none => exact hcd
  | some h => exact .some h

theorem rel_map {α' β' : Type} {S : α' → β' → Prop} {a : Option α} {b : Option β} {f : α → α'} {g : β → β'}
    (hab : Option.Rel R a b) (hfg : ∀ x y, R x y → S (f x) (g y)) : Option.Rel S (a.map f) (b.map g) := by
  cases hab with
  | none => exact .none
  | some h => exact .some (hfg _ _ h)

theorem rel_bind {α' β' : Type} {S : α' → β' → Prop} {a : Option α} {b : Option β} {f : α → Option α'}
    {g : β → Option β'} (hab : Option.Rel R a b) (hfg : ∀ x y, R x y → Option.Rel S (f x) (g y)) :
    Option.Rel S (a.bind f) (b.bind g) := by
  cases hab with
  | none => exact .none
  | some h => exact hfg _ _ h

theorem eq_none_of_rel {b : Option β} (h : Option.Rel R none b) : b = none := by
  cases h; rfl

theorem eq_some_of_rel {a : α} {b : Option β} (h : Option.Rel R (some a) b) : ∃ y, b = some y ∧ R a y := by
  cases h with
  | some h => exact ⟨_, rfl, h⟩

theorem isSome_eq_of_rel {a : Option α} {b : Option β} (h : Option.Rel R a b) : b.isSome = a.isSome := by
  cases h <;> rfl

theorem bind_eq_of_rel {a : Option α} {b : Option β} {f : α → Option γ} {g : β → Option γ} (hab : Option.Rel R a b)
    (hfg : ∀ x y, R x y → g y = f x) : b.bind g = a.bind f := by
  cases hab with
  | none => rfl
  | some h => exact hfg _ _ h

/-! ## Lists -/

theorem map_eq_of_forall₂ {l : List α} {l' : List β} {f : α → γ} {g : β → γ} (h : List.Forall₂ R l l')
    (hfg : ∀ x y, R x y → g y = f x) : l'.map g = l.map f := by
  induction h with
  | nil => rfl
  | cons hxy _ ih => rw [List.map_cons, List.map_cons, hfg _ _ hxy, ih]

theorem filterMap_eq_of_forall₂ {l : List α} {l' : List β} {f : α → Option γ} {g : β → Option γ}
    (h : List.Forall₂ R l l') (hfg : ∀ x y, R x y → g y = f x) : l'.filterMap g = l.filterMap f := by
  induction h with
  | nil => rfl
  | cons hxy _ ih => rw [List.filterMap_cons, List.filterMap_cons, hfg _ _ hxy, ih]

theorem any_eq_of_forall₂ {l : List α} {l' : List β} {f : α → Bool} {g : β → Bool} (h : List.Forall₂ R l l')
    (hfg : ∀ x y, R x y → g y = f x) : l'.any g = l.any f := by
  induction h with
  | nil => rfl
  | cons hxy _ ih => rw [List.any_cons, List.any_cons, hfg _ _ hxy, ih]

end Checkup
