import Checkup.Json.Numeral

/-!
# The grammar of numerals

`Spells l n` says that `l` is a written form of the numeral `n`. Reading takes exactly such a form off a text
(`spells_of_read`), and it takes the whole form if what follows does not continue it (`read_of_spells`).
-/

namespace Checkup.Json.Numeral

variable {t l r ds : Text} {n : Numeral} {negative : Bool}

/-! ## The grammar -/

/-- Digits, one at least. -/
structure IsDigits (t : Text) : Prop where
  ne_nil : t ≠ []
  digit : ∀ c ∈ t, c.isDigit = true

/-- The digits before the point: a zero, or digits that do not start with one. -/
structure IsWhole (t : Text) : Prop extends IsDigits t where
  zero : t.head? = some '0' → t = ['0']

/-- The written form of the digits behind the point. -/
inductive FractionSpells : Text → Text → Prop where
  | absent : FractionSpells [] []
  | present {ds : Text} : IsDigits ds → FractionSpells ('.' :: ds) ds

/-- The written form of an exponent. -/
inductive ExponentSpells : Text → Option (Bool × Text) → Prop where
  | absent : ExponentSpells [] none
  | bare {e : Char} {ds : Text} : e = 'e' ∨ e = 'E' → IsDigits ds → ExponentSpells (e :: ds) (some (false, ds))
  | plus {e : Char} {ds : Text} : e = 'e' ∨ e = 'E' → IsDigits ds → ExponentSpells (e :: '+' :: ds) (some (false, ds))
  | minus {e : Char} {ds : Text} : e = 'e' ∨ e = 'E' → IsDigits ds → ExponentSpells (e :: '-' :: ds) (some (true, ds))

/-- The sign of a negative numeral. -/
def sign (negative : Bool) : Text := if negative then ['-'] else []

/-- The written form of a numeral. -/
inductive Spells : Text → Numeral → Prop where
  | mk (negative : Bool) {w f x fraction : Text} {exponent : Option (Bool × Text)} :
      IsWhole w → FractionSpells f fraction → ExponentSpells x exponent →
      Spells (sign negative ++ (w ++ (f ++ x))) ⟨negative, w, fraction, exponent⟩

/-- The characters of numerals. -/
def IsMark (c : Char) : Prop := c.isDigit = true ∨ c ∈ ['-', '+', '.', 'e', 'E']

theorem IsDigits.isMark (h : IsDigits ds) : ∀ c ∈ ds, IsMark c := fun c hc => Or.inl (h.digit c hc)

theorem Spells.isMark (h : Spells l n) : ∀ c ∈ l, IsMark c := by
  obtain ⟨negative, hw, hf, hx⟩ := h
  have hletter : ∀ {e : Char}, e = 'e' ∨ e = 'E' → IsMark e := by
    rintro e (rfl | rfl) <;> exact Or.inr (by decide)
  intro c hc
  simp only [List.mem_append] at hc
  rcases hc with hc | hc | hc | hc
  · cases negative with
    | false => cases hc
    | true => exact Or.inr (by simp_all [sign])
  · exact hw.isMark c hc
  · cases hf with
    | absent => cases hc
    | present hds =>
      rcases List.mem_cons.mp hc with rfl | hc
      · exact Or.inr (by decide)
      · exact hds.isMark c hc
  · cases hx with
    | absent => cases hc
    | bare he hds =>
      rcases List.mem_cons.mp hc with rfl | hc
      · exact hletter he
      · exact hds.isMark c hc
    | plus he hds | minus he hds =>
      rcases List.mem_cons.mp hc with rfl | hc
      · exact hletter he
      · rcases List.mem_cons.mp hc with rfl | hc
        · exact Or.inr (by decide)
        · exact hds.isMark c hc

/-- A numeral starts with its sign or a digit. -/
theorem Spells.head (h : Spells l n) : ∃ c rest, l = c :: rest ∧ (c.isDigit = true ∨ c = '-') := by
  obtain ⟨negative, hw, hf, hx⟩ := h
  obtain ⟨c, rest, rfl⟩ := List.exists_cons_of_ne_nil hw.ne_nil
  cases negative with
  | false => exact ⟨c, _, rfl, Or.inl (hw.digit c (by simp))⟩
  | true => exact ⟨'-', _, rfl, Or.inr rfl⟩

/-! ## What reading takes off -/

theorem digits_append_self (t : Text) : (digits t).1 ++ (digits t).2 = t := List.takeWhile_append_dropWhile

theorem isDigits_digits (h : (digits t).1.isEmpty = false) : IsDigits (digits t).1 where
  ne_nil := by simpa using h
  digit := List.all_eq_true.mp List.all_takeWhile

theorem isWhole_of_readWhole {w : Text} (h : readWhole t = some (w, r)) : IsWhole w ∧ t = w ++ r := by
  unfold readWhole at h
  split at h
  · rename_i rest
    simp only [Option.some.injEq, Prod.mk.injEq] at h
    obtain ⟨rfl, rfl⟩ := h
    exact ⟨⟨⟨by simp, by simp⟩, fun _ => rfl⟩, rfl⟩
  · rename_i hzero
    split at h
    · cases h
    · rename_i hne
      simp only [Option.some.injEq] at h
      have happ := digits_append_self t
      have hdigits := isDigits_digits (t := t) (by simpa using hne)
      rw [h] at happ hdigits
      refine ⟨⟨hdigits, fun hhead => ?_⟩, happ.symm⟩
      obtain ⟨rest, hw⟩ : ∃ rest, w = '0' :: rest := by
        cases w with
        | nil => cases hhead
        | cons c w => exact ⟨w, by simpa using hhead⟩
      exact absurd (happ.symm.trans (by rw [hw]; rfl)) (hzero _)

theorem fractionSpells_of_read {f : Text} (h : readFraction t = some (f, r)) :
    ∃ l, FractionSpells l f ∧ t = l ++ r := by
  unfold readFraction at h
  split at h
  · rename_i rest
    split at h
    · cases h
    · rename_i hne
      simp only [Option.some.injEq] at h
      have happ := digits_append_self rest
      have hdigits := isDigits_digits (t := rest) (by simpa using hne)
      rw [h] at happ hdigits
      exact ⟨'.' :: f, .present hdigits, by rw [← happ]; rfl⟩
  · simp only [Option.some.injEq, Prod.mk.injEq] at h
    obtain ⟨rfl, rfl⟩ := h
    exact ⟨[], .absent, rfl⟩

theorem exponentSpells_of_readPower {e : Char} {x : Option (Bool × Text)} (he : e = 'e' ∨ e = 'E')
    (h : readPower t = some (x, r)) : ∃ l, ExponentSpells l x ∧ e :: t = l ++ r := by
  -- the digits behind the sign, if there is one
  have key : ∀ {b : Bool} {u : Text}, (if (digits u).1.isEmpty then none else
      some (some (b, (digits u).1), (digits u).2)) = some (x, r) →
      ∃ ds, IsDigits ds ∧ x = some (b, ds) ∧ u = ds ++ r := by
    intro b u h
    split at h
    · cases h
    · rename_i hne
      simp only [Option.some.injEq, Prod.mk.injEq] at h
      obtain ⟨rfl, rfl⟩ := h
      exact ⟨_, isDigits_digits (by simpa using hne), rfl, (digits_append_self u).symm⟩
  unfold readPower at h
  split at h
  rename_i b u heq
  split at heq
  all_goals
    simp only [Prod.mk.injEq] at heq
    obtain ⟨rfl, rfl⟩ := heq
    obtain ⟨ds, hds, rfl, rfl⟩ := key h
  · exact ⟨e :: '-' :: ds, .minus he hds, rfl⟩
  · exact ⟨e :: '+' :: ds, .plus he hds, rfl⟩
  · exact ⟨e :: ds, .bare he hds, rfl⟩

theorem exponentSpells_of_read {x : Option (Bool × Text)} (h : readExponent t = some (x, r)) :
    ∃ l, ExponentSpells l x ∧ t = l ++ r := by
  unfold readExponent at h
  split at h
  · exact exponentSpells_of_readPower (Or.inl rfl) h
  · exact exponentSpells_of_readPower (Or.inr rfl) h
  · simp only [Option.some.injEq, Prod.mk.injEq] at h
    obtain ⟨rfl, rfl⟩ := h
    exact ⟨[], .absent, rfl⟩

theorem spells_of_readUnsigned (h : readUnsigned negative t = some (n, r)) :
    ∃ l, Spells (sign negative ++ l) n ∧ t = l ++ r := by
  simp only [readUnsigned, bind, Option.bind_eq_some_iff] at h
  obtain ⟨⟨w, t₁⟩, hw, ⟨f, t₂⟩, hf, ⟨x, t₃⟩, hx, h⟩ := h
  simp only [pure, Option.some.injEq, Prod.mk.injEq] at h
  obtain ⟨rfl, rfl⟩ := h
  obtain ⟨hwhole, rfl⟩ := isWhole_of_readWhole hw
  obtain ⟨lf, hfraction, rfl⟩ := fractionSpells_of_read hf
  obtain ⟨lx, hexponent, rfl⟩ := exponentSpells_of_read hx
  exact ⟨w ++ (lf ++ lx), .mk negative hwhole hfraction hexponent, by simp⟩

/-- Reading takes a written form of the numeral off the text. -/
theorem spells_of_read (h : read t = some (n, r)) : ∃ l, Spells l n ∧ t = l ++ r := by
  unfold read at h
  split at h
  · obtain ⟨l, hl, rfl⟩ := spells_of_readUnsigned h
    exact ⟨'-' :: l, hl, rfl⟩
  · exact spells_of_readUnsigned h

/-! ## What is read back -/

/-- What does not continue a numeral. -/
def Ends (t : Text) : Prop := ∀ c ∈ t.head?, c.isDigit = false ∧ c ≠ '.' ∧ c ≠ 'e' ∧ c ≠ 'E'

theorem digits_append (hds : IsDigits ds) (hr : ∀ c ∈ r.head?, c.isDigit = false) : digits (ds ++ r) = (ds, r) := by
  have htake : r.takeWhile Char.isDigit = [] := by
    cases r with
    | nil => rfl
    | cons c r => simp [hr c rfl]
  have hdrop : r.dropWhile Char.isDigit = r := by
    cases r with
    | nil => rfl
    | cons c r => simp [hr c rfl]
  rw [digits, List.takeWhile_append_of_pos hds.digit, List.dropWhile_append_of_pos hds.digit, htake, hdrop,
    List.append_nil]

theorem IsDigits.isEmpty_eq (h : IsDigits ds) : ds.isEmpty = false := by simpa using h.ne_nil

theorem readWhole_append {w : Text} (hw : IsWhole w) (hr : ∀ c ∈ r.head?, c.isDigit = false) :
    readWhole (w ++ r) = some (w, r) := by
  have hdigits := digits_append hw.toIsDigits hr
  unfold readWhole
  split
  · rename_i rest heq
    have hzero : w = ['0'] := by
      apply hw.zero
      cases w with
      | nil => exact absurd rfl hw.ne_nil
      | cons c w => exact congrArg List.head? heq
    subst hzero
    simp_all
  · rw [hdigits, hw.isEmpty_eq]
    rfl

theorem readFraction_append {f fraction : Text} (hf : FractionSpells f fraction)
    (hr : ∀ c ∈ r.head?, c.isDigit = false ∧ c ≠ '.') : readFraction (f ++ r) = some (fraction, r) := by
  cases hf with
  | absent =>
    unfold readFraction
    split
    · rename_i rest heq
      exact absurd rfl (hr '.' (congrArg List.head? heq)).2
    · rfl
  | present hds =>
    have hdigits := digits_append hds fun c hc => (hr c hc).1
    simp only [List.cons_append, readFraction, hdigits, hds.isEmpty_eq]
    rfl

theorem readPower_append (hds : IsDigits ds) (hr : ∀ c ∈ r.head?, c.isDigit = false) :
    readPower (ds ++ r) = some (some (false, ds), r) ∧ readPower ('+' :: (ds ++ r)) = some (some (false, ds), r) ∧
      readPower ('-' :: (ds ++ r)) = some (some (true, ds), r) := by
  have hdigits := digits_append hds hr
  refine ⟨?_, ?_, ?_⟩
  · obtain ⟨c, ds, rfl⟩ : ∃ c ds', ds = c :: ds' := List.exists_cons_of_ne_nil hds.ne_nil
    have hc := hds.digit c (by simp)
    have hminus : c ≠ '-' := by rintro rfl; cases hc
    have hplus : c ≠ '+' := by rintro rfl; cases hc
    simp only [readPower, List.cons_append] at hdigits ⊢
    simp [hdigits, hminus, hplus]
  · simp [readPower, hdigits, hds.isEmpty_eq]
  · simp [readPower, hdigits, hds.isEmpty_eq]

theorem readExponent_append {x : Text} {exponent : Option (Bool × Text)} (hx : ExponentSpells x exponent)
    (hr : Ends r) : readExponent (x ++ r) = some (exponent, r) := by
  have hdigit : ∀ c ∈ r.head?, c.isDigit = false := fun c hc => (hr c hc).1
  cases hx with
  | absent =>
    unfold readExponent
    split
    · rename_i rest heq
      exact absurd rfl (hr 'e' (congrArg List.head? heq)).2.2.1
    · rename_i rest heq
      exact absurd rfl (hr 'E' (congrArg List.head? heq)).2.2.2
    · rfl
  | bare he hds =>
    rcases he with rfl | rfl <;> exact (readPower_append hds hdigit).1
  | plus he hds =>
    rcases he with rfl | rfl <;> exact (readPower_append hds hdigit).2.1
  | minus he hds =>
    rcases he with rfl | rfl <;> exact (readPower_append hds hdigit).2.2

/-- The first character of an exponent, or of what follows if there is none. -/
theorem head_exponent {x : Text} {exponent : Option (Bool × Text)} (hx : ExponentSpells x exponent) (hr : Ends r) :
    ∀ c ∈ (x ++ r).head?, c.isDigit = false ∧ c ≠ '.' := by
  have hletter : ∀ {e : Char}, e = 'e' ∨ e = 'E' → e.isDigit = false ∧ e ≠ '.' := by
    rintro e (rfl | rfl) <;> decide
  cases hx with
  | absent => exact fun c hc => ⟨(hr c hc).1, (hr c hc).2.1⟩
  | bare he _ | plus he _ | minus he _ =>
    intro c hc
    obtain rfl := Option.some.inj hc
    exact hletter he

theorem head_fraction {f fraction : Text} (hf : FractionSpells f fraction)
    (hr : ∀ c ∈ r.head?, c.isDigit = false) : ∀ c ∈ (f ++ r).head?, c.isDigit = false := by
  cases hf with
  | absent => exact hr
  | present _ =>
    intro c hc
    obtain rfl := Option.some.inj hc
    decide

/-- A written form is read back if what follows does not continue it. -/
theorem read_of_spells (h : Spells l n) (hr : Ends r) : read (l ++ r) = some (n, r) := by
  obtain ⟨negative, hw, hf, hx⟩ := h
  rename_i w f x fraction exponent
  have hexponent := readExponent_append hx hr
  have hfraction := readFraction_append hf (head_exponent hx hr)
  have hwhole := readWhole_append hw (head_fraction hf fun c hc => (head_exponent hx hr c hc).1)
  have hunsigned : ∀ b, readUnsigned b (w ++ (f ++ (x ++ r))) = some (⟨b, w, fraction, exponent⟩, r) := by
    intro b
    simp only [readUnsigned, hwhole, hfraction, hexponent, bind, Option.bind_some, pure]
  obtain ⟨c, rest, rfl⟩ := List.exists_cons_of_ne_nil hw.ne_nil
  have hc : c ≠ '-' := by
    rintro rfl
    exact absurd (hw.digit '-' (by simp)) (by decide)
  cases negative with
  | false =>
    simp only [sign, Bool.false_eq_true, if_false, List.nil_append, List.append_assoc, List.cons_append]
      at hunsigned ⊢
    unfold read
    split
    · rename_i heq
      exact absurd (List.cons.inj heq).1 hc
    · exact hunsigned false
  | true =>
    simp only [sign, if_true, List.append_assoc, List.cons_append, List.nil_append] at hunsigned ⊢
    exact hunsigned true

end Checkup.Json.Numeral
