import Checkup.Proofs.Json.Numeral

/-!
# Written numbers are numerals

* `isWhole_toDigits`: the digits of a natural number.
* `digitsNumeral`: the numeral that `digitsText` writes (`spells_digitsText`).
* `shortestNumeral`: the numeral that `shortestText` writes (`spells_shortestText`).
-/

namespace Checkup.Decimal

open Json Numeral

variable {n k width : Nat} {p : Int} {negative : Bool}

/-! ## Natural numbers -/

theorem isDigits_toDigits (n : Nat) : IsDigits (Nat.toDigits 10 n) where
  ne_nil := Nat.toDigits_ne_nil
  digit _ hc := Nat.isDigit_of_mem_toDigits (by decide) (by decide) hc

theorem ofDigits_toDigits (n : Nat) : ofDigits (Nat.toDigits 10 n) = n := Nat.ofDigitChars_ten_toDigits

theorem head_toDigits (hn : n ≠ 0) : (Nat.toDigits 10 n).head? ≠ some '0' := by
  induction n using Nat.strongRecOn with
  | ind n ih =>
    rcases Nat.lt_or_ge n 10 with hlt | hge
    · rw [Nat.toDigits_of_lt_base hlt]
      have hall : ∀ i : Fin 10, i.val ≠ 0 → [Nat.digitChar i].head? ≠ some '0' := by decide
      exact hall ⟨n, hlt⟩ hn
    · have hdiv := ih (n / 10) (by omega) (by omega)
      obtain ⟨d, more, hdigits⟩ := List.exists_cons_of_ne_nil (Nat.toDigits_ne_nil (n := n / 10) (b := 10))
      rw [Nat.toDigits_of_base_le (by decide) hge, hdigits]
      rw [hdigits] at hdiv
      exact hdiv

theorem isWhole_toDigits (n : Nat) : IsWhole (Nat.toDigits 10 n) where
  toIsDigits := isDigits_toDigits n
  zero h := by
    by_cases hn : n = 0
    · subst hn; rfl
    · exact absurd h (head_toDigits hn)

theorem toString_string (s : String) : toString s = s := rfl

theorem spells_nat (n : Nat) : Spells (toString n).toList ⟨false, Nat.toDigits 10 n, [], none⟩ := by
  have hspells := Spells.mk false (isWhole_toDigits n) .absent .absent
  simpa [sign] using hspells

theorem spells_neg (n : Nat) : Spells s!"-{n}".toList ⟨true, Nat.toDigits 10 n, [], none⟩ := by
  have hspells := Spells.mk true (isWhole_toDigits n) .absent .absent
  simpa [sign, toString_string] using hspells

/-! ## Decimal fractions -/

/-- The numeral of `k · 10 ^ p`. -/
def digitsNumeral (negative : Bool) (k : Nat) (p : Int) : Numeral :=
  let digits := Nat.toDigits 10 k
  let exponent := p + digits.length - 1
  let power := Nat.toDigits 10 exponent.natAbs
  if exponent < -5 then ⟨negative, digits.take 1, digits.drop 1, some (true, power)⟩
  else if 16 ≤ exponent then ⟨negative, digits.take 1, digits.drop 1, some (false, power)⟩
  else if 0 ≤ p then ⟨negative, Nat.toDigits 10 (k * pow10 p.toNat), ['0'], none⟩
  else ⟨negative, Nat.toDigits 10 (k / pow10 p.natAbs), (padded p.natAbs (k % pow10 p.natAbs)).toList, none⟩

theorem isDigits_padded (width n : Nat) : IsDigits (padded width n).toList where
  ne_nil := by simp [padded]
  digit c hc := by
    simp only [padded, String.toList_ofList, List.mem_append] at hc
    rcases hc with hc | hc
    · rw [List.eq_of_mem_replicate hc]
      rfl
    · exact (isDigits_toDigits n).digit c hc

/-- The point and the digits behind it, if there are any. -/
theorem spells_pointAfterFirst (k : Nat) : IsWhole ((Nat.toDigits 10 k).take 1) ∧
    ∃ f, FractionSpells f ((Nat.toDigits 10 k).drop 1) ∧
      (pointAfterFirst k).toList = (Nat.toDigits 10 k).take 1 ++ f := by
  have hdigits := isDigits_toDigits k
  unfold pointAfterFirst
  cases hk : Nat.toDigits 10 k with
  | nil => exact absurd hk Nat.toDigits_ne_nil
  | cons d more =>
    rw [hk] at hdigits
    have hd : IsWhole [d] := ⟨⟨by simp, fun c hc => hdigits.digit c (by simp_all)⟩, fun h => by simp_all⟩
    cases more with
    | nil => exact ⟨hd, [], .absent, by simp⟩
    | cons d' more =>
      have hmore : IsDigits (d' :: more) := ⟨by simp, fun c hc => hdigits.digit c (by simp_all)⟩
      exact ⟨hd, '.' :: d' :: more, .present hmore, by simp⟩

theorem spells_digitsText (negative : Bool) (k : Nat) (p : Int) :
    Spells (sign negative ++ (digitsText k p).toList) (digitsNumeral negative k p) := by
  obtain ⟨hfirst, f, hf, htext⟩ := spells_pointAfterFirst k
  unfold digitsText digitsNumeral
  dsimp only
  generalize p + (Nat.toDigits 10 k).length - 1 = exponent
  have hpower := isDigits_toDigits exponent.natAbs
  split
  · have hspells := Spells.mk negative hfirst hf (.minus (Or.inl rfl) hpower)
    simpa [htext, toString_string] using hspells
  split
  · have hspells := Spells.mk negative hfirst hf (.plus (Or.inl rfl) hpower)
    simpa [htext, toString_string] using hspells
  split
  · have hzero : IsDigits ['0'] := ⟨by simp, by simp⟩
    have hspells := Spells.mk negative (isWhole_toDigits (k * pow10 p.toNat)) (.present hzero) .absent
    simpa [toString_string] using hspells
  · have hpadded := isDigits_padded p.natAbs (k % pow10 p.natAbs)
    have hspells := Spells.mk negative (isWhole_toDigits (k / pow10 p.natAbs)) (.present hpadded) .absent
    have hp : p.natAbs ≠ 0 := by omega
    simpa [positional, hp, toString_string] using hspells

/-- The numeral of a finite number, with the fewest digits. -/
def shortestNumeral (x : Float) : Numeral :=
  let d := Dyadic.ofFloat x
  if d.m = 0 then ⟨d.negative, ['0'], ['0'], none⟩ else digitsNumeral d.negative d.shortest.1 d.shortest.2

theorem spells_shortestText (x : Float) : Spells (shortestText x).toList (shortestNumeral x) := by
  have hsign : ∀ b, (if b then "-" else "" : String).toList = sign b := by
    intro b
    cases b <;> rfl
  unfold shortestText shortestNumeral
  generalize Dyadic.ofFloat x = d
  by_cases hm : d.m = 0
  · have hzero : IsWhole ['0'] := ⟨⟨by simp, by simp⟩, fun _ => rfl⟩
    have hspells := Spells.mk d.negative hzero (.present hzero.toIsDigits) .absent
    simpa [hm, hsign, toString_string] using hspells
  · have hspells := spells_digitsText d.negative d.shortest.1 d.shortest.2
    simpa only [if_neg hm, toString_string, String.toList_append, hsign] using hspells

end Checkup.Decimal
