import Checkup.Proofs.Decimal.Text
import Checkup.Proofs.Double.Range

/-!
# Shortest texts are read back

The shortest text of a finite double is the numeral of a number in the interval that rounds to it. Reading is coarser
than that: it rounds three times, which takes the greatest doubles close to the end of the range.

* `Dyadic.shortest_le`: the number is not greater than the interval.
* `Numeral.double_isSome`: a numeral below the limit has a double.
* `shortestNumeral_double`: so the numeral of a finite double has one. The greatest doubles are read one by one.
-/

open Float.Model (Format UnpackedFloat)
open Float.Model.UnpackedFloat

namespace Checkup.Decimal

open Json Numeral

variable {d : Dyadic} {k : Nat} {p : Int} {x : Float}

theorem cast_pow2 (n : Nat) : (pow2 n : ℚ) = 2 ^ n := Nat.cast_pow 2 n

theorem cast_pow10 (n : Nat) : (pow10 n : ℚ) = 10 ^ n := Nat.cast_pow 10 n

/-- The positive part of an exponent. -/
theorem pow_toNat {b : ℚ} (hb : b ≠ 0) (z : Int) : b ^ z.toNat = b ^ z * b ^ (-z).toNat := by
  rw [← zpow_natCast, ← zpow_natCast, ← zpow_add₀ hb]
  congr 1
  omega

namespace Dyadic

/-! ## The interval around a double -/

/-- What `scaled` counts. -/
theorem scaled_mul (d : Dyadic) (c : Nat) (p : Int) :
    (d.scaled c p : ℚ) * 10 ^ p = c * 2 ^ (d.q - 2) * d.scale p := by
  have htwo := pow_toNat (b := 2) (by norm_num) (d.q - 2)
  have hten := pow_toNat (b := 10) (by norm_num) p
  rw [neg_sub] at htwo
  simp only [scaled, scale, Nat.cast_mul, cast_pow2, cast_pow10, htwo, hten]
  ring

theorem scale_pos (d : Dyadic) (p : Int) : (0 : ℚ) < d.scale p := by
  simp only [scale, Nat.cast_mul, cast_pow2, cast_pow10]
  positivity

theorem le_of_readsBack (h : d.readsBack k p = true) : (k : ℚ) * 10 ^ p ≤ (d.m + 1 / 2) * 2 ^ d.q := by
  have hnat : k * d.scale p ≤ d.scaled (4 * d.m + 2) p := by
    unfold readsBack at h
    dsimp only at h
    split at h <;> simp only [Bool.and_eq_true, decide_eq_true_eq] at h
    · exact h.2
    · exact h.2.le
  have hcast : (k : ℚ) * d.scale p ≤ d.scaled (4 * d.m + 2) p := by exact_mod_cast hnat
  have hquarter : (2 : ℚ) ^ d.q = 2 ^ (d.q - 2) * 4 := by
    rw [show (4 : ℚ) = 2 ^ (2 : Int) by norm_num, ← zpow_add₀ (by norm_num), sub_add_cancel]
  refine le_of_mul_le_mul_right ?_ (d.scale_pos p)
  calc (k : ℚ) * 10 ^ p * d.scale p = k * d.scale p * 10 ^ p := by ring
    _ ≤ d.scaled (4 * d.m + 2) p * 10 ^ p := mul_le_mul_of_nonneg_right hcast (by positivity)
    _ = (4 * d.m + 2) * 2 ^ (d.q - 2) * d.scale p := by rw [scaled_mul]; push_cast; ring
    _ = (d.m + 1 / 2) * 2 ^ d.q * d.scale p := by rw [hquarter]; ring

theorem readsBack_of_onGrid? (h : d.onGrid? p = some k) : d.readsBack k p = true := by
  unfold onGrid? at h
  dsimp only at h
  split at h
  · rename_i hlow hhigh
    have hnear : roundHalfEven (d.scaled (4 * d.m) p) (d.scale p) = d.scaled (4 * d.m) p / d.scale p ∨
        roundHalfEven (d.scaled (4 * d.m) p) (d.scale p) = d.scaled (4 * d.m) p / d.scale p + 1 := by
      unfold roundHalfEven
      dsimp only
      repeat' split
      all_goals simp
    rw [Bool.and_eq_true] at hlow
    obtain rfl := Option.some.inj h
    rcases hnear with heq | heq <;> rw [heq]
    · exact hlow.2
    · exact hhigh
  · rename_i hlow _
    rw [Bool.and_eq_true] at hlow
    obtain rfl := Option.some.inj h
    exact hlow.2
  · rename_i hhigh
    obtain rfl := Option.some.inj h
    exact hhigh
  · cases h

theorem coarsest_spec (d : Dyadic) (p : Int) (fuel : Nat) :
    d.readsBack (d.coarsest p fuel).1 (d.coarsest p fuel).2 = true ∨ d.coarsest p fuel = (d.m, p - fuel) := by
  induction fuel generalizing p with
  | zero => exact .inr (Prod.ext rfl (by simp [coarsest]))
  | succ fuel ih =>
    rw [coarsest]
    split
    · rename_i k hgrid
      exact .inl (readsBack_of_onGrid? hgrid)
    · refine (ih (p - 1)).imp_right fun h => h.trans ?_
      congr 1
      push_cast
      ring

/-- The shortest number that reads back as the double. -/
theorem shortest_le (hq : -1074 ≤ d.q) : (d.shortest.1 : ℚ) * 10 ^ d.shortest.2 ≤ (d.m + 1 / 2) * 2 ^ d.q := by
  rcases coarsest_spec d 309 1384 with h | h
  · exact le_of_readsBack h
  · -- on a grid that is finer than all doubles
    have hlast : (10 : ℚ) ^ (-1075 : Int) ≤ 2 ^ (-1075 : Int) := by
      rw [zpow_neg, zpow_neg]
      exact inv_anti₀ (by positivity) (zpow_le_zpow_left₀ (by norm_num) (by norm_num) (by norm_num))
    have hpow : (2 : ℚ) ^ (-1075 : Int) ≤ 2 ^ d.q := zpow_le_zpow_right₀ (by norm_num) (by omega)
    rw [shortest, h]
    calc (d.m : ℚ) * 10 ^ ((309 : Int) - (1384 : Nat)) ≤ d.m * 2 ^ d.q :=
          mul_le_mul_of_nonneg_left (hlast.trans hpow) (Nat.cast_nonneg _)
      _ ≤ (d.m + 1 / 2) * 2 ^ d.q := mul_le_mul_of_nonneg_right (by norm_num) (by positivity)

end Dyadic

/-! ## Doubles of numerals -/

theorem ofDigits_append (t u : Text) : ofDigits (t ++ u) = ofDigits t * 10 ^ u.length + ofDigits u := by
  have hsplit : ofDigits (t ++ u) = Nat.ofDigitChars 10 u (ofDigits t) := Nat.ofDigitChars_append 0
  rw [hsplit, Nat.ofDigitChars_eq_ofDigitChars_zero, Nat.mul_comm]
  rfl

theorem ofDigits_cons (c : Char) (t : Text) : ofDigits (c :: t) = digitValue c * 10 ^ t.length + ofDigits t := by
  have hone : ofDigits [c] = digitValue c := Nat.zero_add _
  rw [← List.singleton_append, ofDigits_append, hone]

/-- Digits that fit in a word are all taken. -/
theorem leading_eq {n : Nat} {t : Text} (h : n * 10 ^ t.length + ofDigits t < 2 ^ 64) :
    leading n t = (n * 10 ^ t.length + ofDigits t, []) := by
  induction t generalizing n with
  | nil => simp [leading, ofDigits]
  | cons c t ih =>
    have hvalue : n * 10 ^ (c :: t).length + ofDigits (c :: t) =
        (10 * n + digitValue c) * 10 ^ t.length + ofDigits t := by
      rw [ofDigits_cons, List.length_cons, Nat.pow_succ]
      ring
    rw [hvalue] at h ⊢
    have hfits : 10 * n + digitValue c < pow2 64 :=
      lt_of_le_of_lt ((Nat.le_mul_of_pos_right _ (by positivity)).trans (Nat.le_add_right _ _)) h
    rw [leading, if_pos hfits, ih h]

/-- Digits that do not fit are left, which only makes the number smaller. -/
theorem leading_le {n : Nat} (t : Text) (hn : n < 2 ^ 64) :
    (leading n t).1 < 2 ^ 64 ∧ (leading n t).2.length ≤ t.length ∧
      (leading n t).1 * 10 ^ (leading n t).2.length ≤ n * 10 ^ t.length + ofDigits t := by
  induction t generalizing n with
  | nil => exact ⟨hn, le_rfl, Nat.le_add_right _ _⟩
  | cons c t ih =>
    rw [leading]
    split
    · rename_i hfits
      obtain ⟨hword, hlength, hle⟩ := ih hfits
      refine ⟨hword, hlength.trans (Nat.le_succ _), hle.trans_eq ?_⟩
      rw [ofDigits_cons, List.length_cons, Nat.pow_succ]
      ring
    · exact ⟨hn, le_rfl, Nat.le_add_right _ _⟩

/-- The absolute value of the number that a numeral denotes. -/
def magnitude (n : Numeral) : ℚ := ofDigits (n.whole ++ n.fraction) * 10 ^ (n.power - n.fraction.length)

theorem double_isSome {n : Numeral} (hw : ofDigits n.whole < 2 ^ 64) (hlt : magnitude n < Double.limit) :
    n.double.isSome = true := by
  have hwhole : leading 0 n.whole = (ofDigits n.whole, []) := by
    have hzero : 0 * 10 ^ n.whole.length + ofDigits n.whole = ofDigits n.whole := by rw [Nat.zero_mul, Nat.zero_add]
    rw [leading_eq (hzero.symm ▸ hw), hzero]
  obtain ⟨hword, hlength, hle⟩ := leading_le n.fraction hw
  unfold double
  rw [hwhole]
  dsimp only
  generalize leading (ofDigits n.whole) n.fraction = taken at hword hlength hle
  have hpower : ((([] : Text).length : Int) - (n.fraction.length - taken.2.length : Nat) + n.power) =
      taken.2.length + (n.power - n.fraction.length) := by
    rw [List.length_nil]
    omega
  have hbound : (taken.1 : ℚ) * 10 ^ ((taken.2.length : Int) + (n.power - n.fraction.length)) ≤ magnitude n := by
    have hcast : (taken.1 : ℚ) * 10 ^ taken.2.length ≤ ofDigits (n.whole ++ n.fraction) := by
      rw [ofDigits_append]
      exact_mod_cast hle
    rw [zpow_add₀ (by norm_num), ← mul_assoc, zpow_natCast]
    exact mul_le_mul_of_nonneg_right hcast (by positivity)
  have hdouble := Double.toDouble_isSome hword (hbound.trans_lt hlt)
  rw [hpower]
  split
  · rw [Option.isSome_map]
    exact hdouble
  · exact hdouble

/-! ## Numerals of doubles -/

theorem length_padded {width n : Nat} (hw : width ≠ 0) (hn : n < 10 ^ width) :
    (padded width n).toList.length = width := by
  have hle := (Nat.length_toDigits_le_iff (by decide) (by omega)).mpr hn
  simp only [padded, String.toList_ofList, List.length_append, List.length_replicate]
  omega

theorem ofDigits_padded (width n : Nat) : ofDigits (padded width n).toList = n := by
  have hzeros : ofDigits (List.replicate (width - (Nat.toDigits 10 n).length) '0') = 0 :=
    Nat.ofDigitChars_replicate_zero
  rw [padded, String.toList_ofList, ofDigits_append, hzeros, ofDigits_toDigits, Nat.zero_mul, Nat.zero_add]

theorem lt_pow_size (k : Nat) : k < 10 ^ (Nat.toDigits 10 k).length :=
  (Nat.length_toDigits_le_iff (by decide) (List.length_pos_of_ne_nil Nat.toDigits_ne_nil)).mp le_rfl

theorem magnitude_digitsNumeral (negative : Bool) (k : Nat) (p : Int) :
    magnitude (digitsNumeral negative k p) = k * 10 ^ p := by
  have hsize : 0 < (Nat.toDigits 10 k).length := List.length_pos_of_ne_nil Nat.toDigits_ne_nil
  unfold digitsNumeral magnitude
  dsimp only
  split
  · simp only [List.take_append_drop, ofDigits_toDigits, power, List.length_drop]
    congr 2
    omega
  split
  · simp only [List.take_append_drop, ofDigits_toDigits, power, List.length_drop]
    congr 2
    omega
  split
  · rename_i hp
    have hpow : (10 : ℚ) ^ p = 10 ^ p.toNat := by rw [← zpow_natCast, Int.toNat_of_nonneg hp]
    have hzero : ofDigits ['0'] = 0 := rfl
    have htenth : (10 : ℚ) * 10 ^ (-1 : Int) = 1 := by norm_num
    simp only [ofDigits_append, ofDigits_toDigits, power, hzero, Nat.add_zero, List.length_singleton]
    push_cast
    rw [cast_pow10, hpow, mul_assoc, htenth, mul_one]
  · rename_i hp
    have hlt : k % pow10 p.natAbs < 10 ^ p.natAbs := Nat.mod_lt _ (Nat.pow_pos (by decide))
    have hpow : (10 : ℚ) ^ p = 10 ^ (0 - (p.natAbs : Int)) := by congr 1; omega
    have hk : k / pow10 p.natAbs * 10 ^ p.natAbs + k % pow10 p.natAbs = k := Nat.div_add_mod' _ _
    simp only [ofDigits_append, ofDigits_toDigits, ofDigits_padded, length_padded (show p.natAbs ≠ 0 by omega) hlt,
      power, hk, hpow]

theorem ofDigits_take_one_lt (k : Nat) : ofDigits ((Nat.toDigits 10 k).take 1) < 10 := by
  have hsize : 1 ≤ (Nat.toDigits 10 k).length := List.length_pos_of_ne_nil Nat.toDigits_ne_nil
  have hk : k < 10 * 10 ^ ((Nat.toDigits 10 k).drop 1).length := by
    rw [List.length_drop, ← Nat.pow_succ', Nat.succ_eq_add_one, Nat.sub_add_cancel hsize]
    exact lt_pow_size k
  have hsplit := ofDigits_append ((Nat.toDigits 10 k).take 1) ((Nat.toDigits 10 k).drop 1)
  rw [List.take_append_drop, ofDigits_toDigits] at hsplit
  exact Nat.lt_of_mul_lt_mul_right (a := 10 ^ ((Nat.toDigits 10 k).drop 1).length) (by omega)

theorem whole_digitsNumeral_lt (negative : Bool) (k : Nat) (p : Int) :
    ofDigits (digitsNumeral negative k p).whole < 2 ^ 64 := by
  have hk := lt_pow_size k
  unfold digitsNumeral
  dsimp only
  split
  · exact (ofDigits_take_one_lt k).trans (by decide)
  split
  · exact (ofDigits_take_one_lt k).trans (by decide)
  split
  · rw [ofDigits_toDigits]
    calc k * 10 ^ p.toNat < 10 ^ (Nat.toDigits 10 k).length * 10 ^ p.toNat :=
          Nat.mul_lt_mul_of_pos_right hk (by positivity)
      _ = 10 ^ ((Nat.toDigits 10 k).length + p.toNat) := (Nat.pow_add ..).symm
      _ ≤ 10 ^ 16 := Nat.pow_le_pow_right (by decide) (by omega)
      _ < 2 ^ 64 := by decide
  · rw [ofDigits_toDigits]
    have hlt : k < 10 ^ p.natAbs * 10 ^ 16 :=
      calc k < 10 ^ (Nat.toDigits 10 k).length := hk
        _ ≤ 10 ^ (p.natAbs + 16) := Nat.pow_le_pow_right (by decide) (by omega)
        _ = 10 ^ p.natAbs * 10 ^ 16 := Nat.pow_add ..
    exact (Nat.div_lt_of_lt_mul hlt).trans (by decide)

/-! ## Finite doubles -/

theorem exponent_ne_of_isFinite (h : x.isFinite = true) : x.toBits.toNat / 2 ^ 52 % 2 ^ 11 ≠ 2047 := by
  intro hlast
  have hones : @unpackExponent .binary64 x.toModel.toBits.toBitVec = -1#11 := by
    refine BitVec.eq_of_toNat_eq ?_
    rw [unpackExponent, BitVec.toNat_cast, BitVec.extractLsb_toNat, Nat.shiftRight_eq_div_pow]
    exact hlast
  have hunpack : (unpack .binary64 x.toModel.toBits.toBitVec).isFinite = true := h
  rw [unpack] at hunpack
  dsimp only at hunpack
  rw [if_pos hones] at hunpack
  split at hunpack <;> cases hunpack

/-- The mantissa and the exponent of a finite double. -/
theorem ofFloat_bounds (h : x.isFinite = true) :
    (Dyadic.ofFloat x).m < 2 ^ 53 ∧ -1074 ≤ (Dyadic.ofFloat x).q ∧ (Dyadic.ofFloat x).q ≤ 971 := by
  have hexp := exponent_ne_of_isFinite h
  have hfraction : x.toBits.toNat % 2 ^ 52 < 2 ^ 52 := Nat.mod_lt _ (by decide)
  have hfield : x.toBits.toNat / 2 ^ 52 % 2 ^ 11 < 2 ^ 11 := Nat.mod_lt _ (by decide)
  have hq : (Dyadic.ofFloat x).q = (max (x.toBits.toNat / 2 ^ 52 % 2 ^ 11) 1 : Nat) - (1075 : Int) := rfl
  refine ⟨?_, by omega, by omega⟩
  show (if x.toBits.toNat / 2 ^ 52 % 2 ^ 11 = 0 then x.toBits.toNat % 2 ^ 52
    else x.toBits.toNat % 2 ^ 52 + 2 ^ 52) < 2 ^ 53
  split <;> omega

theorem near_limit : ((2 : ℚ) ^ 53 - 6) * 2 ^ (971 : Int) ≤ Double.limit := by
  have htop : Double.top * Double.loss = (2 ^ 53 - 2) * 2 ^ (971 : Int) := by
    rw [Double.top_eq, show (972 : Int) = 1 + 971 by norm_num, zpow_add₀ (by norm_num)]
    ring
  have hlimit : Double.limit = (2 ^ 53 - 2) * Double.loss ^ 2 * 2 ^ (971 : Int) := by
    rw [Double.limit, pow_succ', ← mul_assoc, htop]
    ring
  rw [hlimit]
  exact mul_le_mul_of_nonneg_right (by norm_num [Double.loss]) (by positivity)

/-- The doubles that are close to the end of the range, by calculation. -/
theorem top_double : ∀ negative isEdge : Bool, ∀ i : Fin 6,
    let d : Dyadic := ⟨negative, 2 ^ 53 - 1 - i, 971, isEdge⟩
    (digitsNumeral d.negative d.shortest.1 d.shortest.2).double.isSome = true := by decide +kernel

theorem lt_limit {m : Nat} {q : Int} (hm : m < 2 ^ 53) (hq : q ≤ 971) (h : q = 971 → m < 2 ^ 53 - 6) :
    ((m : ℚ) + 1 / 2) * 2 ^ q < Double.limit := by
  refine lt_of_lt_of_le ?_ near_limit
  have hpos : (0 : ℚ) < 2 ^ q := by positivity
  by_cases hlast : q = 971
  · have hm' : (m : ℚ) + 1 ≤ 2 ^ 53 - 6 := by
      have hcast : ((m + 1 : Nat) : ℚ) ≤ (2 ^ 53 - 6 : Nat) := Nat.cast_le.mpr (h hlast)
      norm_num at hcast ⊢
      exact hcast
    rw [← hlast]
    exact mul_lt_mul_of_pos_right (by linarith) hpos
  · -- half of the exponents above is enough
    have hm' : (m : ℚ) + 1 ≤ 2 ^ 53 := by exact_mod_cast hm
    have hpow : (2 : ℚ) ^ q ≤ 2 ^ (970 : Int) := zpow_le_zpow_right₀ (by norm_num) (by omega)
    calc ((m : ℚ) + 1 / 2) * 2 ^ q < 2 ^ 53 * 2 ^ q := mul_lt_mul_of_pos_right (by linarith) hpos
      _ ≤ 2 ^ 53 * 2 ^ (970 : Int) := mul_le_mul_of_nonneg_left hpow (by positivity)
      _ = 2 ^ 52 * 2 ^ (971 : Int) := by
        rw [show (971 : Int) = 1 + 970 by norm_num, zpow_add₀ (by norm_num)]
        ring
      _ ≤ (2 ^ 53 - 6) * 2 ^ (971 : Int) := mul_le_mul_of_nonneg_right (by norm_num) (by positivity)

/-- The numeral of a finite double has a double. -/
theorem shortestNumeral_double (h : x.isFinite = true) : (shortestNumeral x).double.isSome = true := by
  obtain ⟨hm, hmin, hmax⟩ := ofFloat_bounds h
  unfold shortestNumeral
  generalize Dyadic.ofFloat x = d at hm hmin hmax
  dsimp only
  split
  · cases d.negative <;> decide +kernel
  by_cases htop : d.q = 971 ∧ 2 ^ 53 - 6 ≤ d.m
  · obtain ⟨negative, m, q, isEdge⟩ := d
    dsimp only at hm htop
    obtain ⟨rfl, hm'⟩ := htop
    have hi : 2 ^ 53 - 1 - (2 ^ 53 - 1 - m) = m := by omega
    have hall := top_double negative isEdge ⟨2 ^ 53 - 1 - m, by omega⟩
    rwa [hi] at hall
  · refine double_isSome (whole_digitsNumeral_lt ..) ?_
    rw [magnitude_digitsNumeral]
    exact (Dyadic.shortest_le hmin).trans_lt (lt_limit hm hmax (by omega))

end Checkup.Decimal
