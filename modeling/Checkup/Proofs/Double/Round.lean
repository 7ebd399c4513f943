import Mathlib

/-!
# Rounding to doubles

The operations on doubles unpack them to mantissa and exponent, compute with these, round and pack the result. Only
the doubles with a full mantissa are treated, that is no subnormal ones.

* `unpack_pack`: packing such a double loses nothing.
* `roundWithAccuracy_near`, `round_near`: rounding misses the number by less than the last bit of the mantissa.
* `toFloat_unpack`: the double of a number that fits in a mantissa.
* `sub_neg`: a difference of two natural numbers that is negative stays so.
-/

open Float.Model (Format UnpackedFloat totalExponent)
open Float.Model.UnpackedFloat

namespace Checkup.Double

variable {s : Sign} {m n : Nat} {e : Int}

/-! ## Packing -/

/-- A full mantissa and an exponent that a double can have. -/
structure IsNormal (m : Nat) (e : Int) : Prop where
  le_mantissa : 2 ^ 52 ≤ m
  mantissa_lt : m < 2 ^ 53
  le_exponent : -1074 ≤ e
  exponent_le : e ≤ 971

theorem IsNormal.pos (h : IsNormal m e) : 0 < m := Nat.lt_of_lt_of_le (by decide) h.le_mantissa

theorem unpack_pack (h : IsNormal m e) :
    unpack .binary64 (pack .binary64 (.finite s m e h.pos)) = .finite s m e h.pos := by
  obtain ⟨hlo, hhi, hmin, hmax⟩ := id h
  have hlog : m.log2 = 52 := (Nat.log2_eq_iff (by omega)).mpr ⟨hlo, hhi⟩
  have hbias : Format.binary64.exponentBias = 1023 := rfl
  have hbits : Format.binary64.mantissaBits = 53 := rfl
  simp only [pack, hlog, hbias, hbits]
  generalize hb : (e + (1023 : Nat) + (52 : Nat)).toNat = b
  rw [if_neg (by omega), if_pos True.intro]
  -- the exponent is neither that of the infinities nor that of the zeros
  have hlast : BitVec.ofNat 11 b ≠ -1#11 := fun heq => by
    have := congrArg BitVec.toNat heq
    simp at this
    omega
  have hfirst : BitVec.ofNat 11 b ≠ 0#11 := fun heq => by
    have := congrArg BitVec.toNat heq
    simp at this
    omega
  have hmant : (1#1 ++ BitVec.ofNat 52 m).toNat = m := by
    have hlow : m % 2 ^ 52 < 2 ^ 52 := Nat.mod_lt _ (by decide)
    rw [BitVec.toNat_append, BitVec.toNat_ofNat, BitVec.toNat_ofNat, ← Nat.shiftLeft_add_eq_or_of_lt hlow,
      Nat.shiftLeft_eq]
    omega
  have hexp : ((BitVec.ofNat 11 b).toNat : Int) - ((1023 : Nat) + (52 : Nat)) = e := by
    rw [BitVec.toNat_ofNat]
    omega
  simp only [unpack, unpackExponent_packComponents, unpackMantissa_packComponents, unpackSign_packComponents,
    Sign.ofBitVec_toBitVec, hbias, if_neg hlast, if_neg hfirst, hmant, hexp]

/-! ## Shifting -/

theorem mantissa_shift (em : ExtendedMantissa) (k : Nat) : (em >>> k).mantissa = em.mantissa / 2 ^ k := by
  induction k with
  | zero => exact (Nat.div_one _).symm
  | succ k ih =>
    have hstep : em >>> (k + 1) = (em >>> k).shiftRightOne := rfl
    rw [hstep, ExtendedMantissa.shiftRightOne, ih, Nat.div_div_eq_div_mul, Nat.pow_succ]

theorem le_roundedMantissa (em : ExtendedMantissa) :
    em.mantissa ≤ em.roundedMantissa ∧ em.roundedMantissa ≤ em.mantissa + 1 := by
  obtain ⟨m, round, sticky⟩ := em
  unfold ExtendedMantissa.roundedMantissa
  cases round <;> cases sticky <;> simp only [ExtendedMantissa.accuracy, Accuracy.roundToNearestEven] <;> omega

theorem targetExponent_eq (m : Nat) (e : Int) :
    Format.binary64.targetExponent (totalExponent m e) = max (m.log2 + e - 52) (-1074) := by
  simp only [Format.targetExponent, totalExponent, Format.mantissaBits, Format.minExponent]
  norm_num
  omega

/-- A mantissa of 53 bits or more is cut down to 53 bits. -/
theorem shiftToTargetExponent_eq {k : Nat} (hk : m.log2 = 52 + k) (he : -1074 ≤ e + k) :
    shiftToTargetExponent .binary64 m e .exact = (ExtendedMantissa.ofMantissaAndAccuracy m .exact >>> k, e + k) := by
  have hshift : (max ((m.log2 : Int) + e - 52) (-1074) - e).toNat = k := by omega
  simp only [shiftToTargetExponent, shiftToExponent, targetExponent_eq, hshift]

theorem log2_eq_of_isNormal (hlo : 2 ^ 52 ≤ m) (hhi : m < 2 ^ 53) : m.log2 = 52 + 0 :=
  (Nat.log2_eq_iff (by omega)).mpr ⟨hlo, hhi⟩

/-! ## Rounding -/

/-- What rounding gives for `m · 2 ^ e`: a full mantissa, and a number at most one unit of the last place away. -/
structure Rounds (m : Nat) (e : Int) (r : Nat) (e' : Int) : Prop where
  le_mantissa : 2 ^ 52 ≤ r
  mantissa_lt : r < 2 ^ 53
  le_exponent : m.log2 + e - 52 ≤ e'
  exponent_le : e' ≤ m.log2 + e - 51
  near : |(r : ℚ) * 2 ^ e' - m * 2 ^ e| ≤ 2 ^ e'

theorem roundWithAccuracy_eq (hlo : 2 ^ 52 ≤ m) (hhi : m < 2 ^ 53) (he : -1074 ≤ e) :
    roundWithAccuracy .binary64 s m e .exact = .finite s m e (Nat.lt_of_lt_of_le (by decide) hlo) := by
  have hlog := log2_eq_of_isNormal hlo hhi
  have hshift : shiftToTargetExponent .binary64 m e .exact = (⟨m, false, false⟩, e) := by
    rw [shiftToTargetExponent_eq hlog (by omega)]
    exact congrArg (Prod.mk _) (by omega)
  have hround : (⟨m, false, false⟩ : ExtendedMantissa).roundedMantissa = m := rfl
  simp only [roundWithAccuracy, hshift, hround, dif_neg (show m ≠ 0 by omega)]

theorem mantissa_ofMantissaAndAccuracy : (ExtendedMantissa.ofMantissaAndAccuracy m .exact).mantissa = m := rfl

/-- Dropping `k` bits of a mantissa and rounding up or not. -/
theorem near_of_div {k d r : Nat} (hlo : m / 2 ^ k ≤ r * 2 ^ d) (hhi : r * 2 ^ d ≤ m / 2 ^ k + 1) :
    |(r : ℚ) * 2 ^ (e + (k + d : Nat)) - m * 2 ^ e| ≤ 2 ^ (e + (k + d : Nat)) := by
  have hpow : (2 : ℚ) ^ (e + (k + d : Nat)) = 2 ^ k * 2 ^ d * 2 ^ e := by
    rw [zpow_add₀ (by norm_num), zpow_natCast, pow_add]
    ring
  have hpos : (0 : ℚ) < 2 ^ e := by positivity
  have hlow : (m : ℚ) < (r * 2 ^ d + 1) * 2 ^ k := by
    have h : m < (r * 2 ^ d + 1) * 2 ^ k := by
      rw [← Nat.div_lt_iff_lt_mul (Nat.two_pow_pos k)]
      omega
    exact_mod_cast h
  have hhigh : (r * 2 ^ d : ℚ) * 2 ^ k ≤ m + 2 ^ k := by
    have h : r * 2 ^ d * 2 ^ k ≤ m + 2 ^ k :=
      calc r * 2 ^ d * 2 ^ k ≤ (m / 2 ^ k + 1) * 2 ^ k := Nat.mul_le_mul_right _ hhi
        _ = m / 2 ^ k * 2 ^ k + 2 ^ k := by ring
        _ ≤ m + 2 ^ k := Nat.add_le_add_right (Nat.div_mul_le_self _ _) _
    exact_mod_cast h
  have hone : (1 : ℚ) ≤ 2 ^ d := one_le_pow₀ (by norm_num)
  have hk : (0 : ℚ) < 2 ^ k := by positivity
  have hkd : (2 : ℚ) ^ k ≤ 2 ^ k * 2 ^ d := le_mul_of_one_le_right hk.le hone
  rw [hpow, show (r : ℚ) * (2 ^ k * 2 ^ d * 2 ^ e) - m * 2 ^ e = (r * 2 ^ d * 2 ^ k - m) * 2 ^ e by ring, abs_mul,
    abs_of_pos hpos]
  refine mul_le_mul_of_nonneg_right (abs_le.mpr ⟨?_, ?_⟩) hpos.le
  · linarith
  · linarith

theorem roundWithAccuracy_near {k : Nat} (hk : m.log2 = 52 + k) (he : -1074 ≤ e + k) :
    ∃ r e' hr, roundWithAccuracy .binary64 s m e .exact = .finite s r e' hr ∧ Rounds m e r e' := by
  have hm : m ≠ 0 := by
    rintro rfl
    rw [Nat.log2_zero] at hk
    omega
  have hlog := (Nat.log2_eq_iff hm).mp hk
  have hlo : 2 ^ 52 ≤ m / 2 ^ k := by
    rw [Nat.le_div_iff_mul_le (Nat.two_pow_pos k), ← Nat.pow_add]
    exact hlog.1
  have hhi : m / 2 ^ k < 2 ^ 53 := by
    rw [Nat.div_lt_iff_lt_mul (Nat.two_pow_pos k), ← Nat.pow_add]
    exact hlog.2.trans_eq (by congr 1; omega)
  have hround := le_roundedMantissa (ExtendedMantissa.ofMantissaAndAccuracy m .exact >>> k)
  rw [mantissa_shift, mantissa_ofMantissaAndAccuracy] at hround
  rw [roundWithAccuracy, shiftToTargetExponent_eq hk he]
  generalize ExtendedMantissa.ofMantissaAndAccuracy m .exact >>> k = em at hround ⊢
  dsimp only
  generalize em.roundedMantissa = q at hround
  rcases Nat.lt_or_ge q (2 ^ 53) with hq | hq
  · -- the rounded mantissa has 53 bits
    have hshift := shiftToTargetExponent_eq (e := e + k) (log2_eq_of_isNormal (by omega) hq) (by omega)
    refine ⟨q, e + (k + 0 : Nat), by omega, ?_, by omega, hq, by omega, by omega,
      near_of_div (by omega) (by omega)⟩
    simp only [hshift, mantissa_shift, mantissa_ofMantissaAndAccuracy, pow_zero, Nat.div_one,
      dif_neg (show q ≠ 0 by omega)]
    congr 1
    omega
  · -- rounding up made it the first number with 54 bits
    obtain rfl : q = 2 ^ 53 := by omega
    have hshift := shiftToTargetExponent_eq (e := e + k) (k := 1) (Nat.log2_two_pow (n := 53)) (by omega)
    refine ⟨2 ^ 52, e + (k + 1 : Nat), by omega, ?_, by omega, by omega, by omega, by omega,
      near_of_div (by omega) (by omega)⟩
    simp only [hshift, mantissa_shift, mantissa_ofMantissaAndAccuracy]
    rw [dif_neg (by omega)]
    congr 1
    omega

theorem full_of_log2 {k : Nat} (hm : m ≠ 0) (hk : m.log2 + k = 52) :
    2 ^ 52 ≤ m * 2 ^ k ∧ m * 2 ^ k < 2 ^ 53 := by
  have hlog := (Nat.log2_eq_iff hm).mp (show m.log2 = 52 - k by omega)
  constructor
  · calc 2 ^ 52 = 2 ^ (52 - k) * 2 ^ k := by rw [← Nat.pow_add]; congr 1; omega
      _ ≤ m * 2 ^ k := Nat.mul_le_mul_right _ hlog.1
  · calc m * 2 ^ k < 2 ^ (52 - k + 1) * 2 ^ k := Nat.mul_lt_mul_of_pos_right hlog.2 (Nat.two_pow_pos k)
      _ = 2 ^ 53 := by rw [← Nat.pow_add]; congr 1; omega

/-- A mantissa of at most 53 bits is kept; it only moves to the front. -/
theorem round_eq {k : Nat} (hm : m ≠ 0) (hk : m.log2 + k = 52) (he : -1074 ≤ e - k) :
    ∃ hr, UnpackedFloat.round .binary64 s m e = .finite s (m * 2 ^ k) (e - k) hr := by
  obtain ⟨hlo, hhi⟩ := full_of_log2 hm hk
  have hshift : (e - max ((m.log2 : Int) + e - 52) (-1074)).toNat = k := by omega
  refine ⟨by omega, ?_⟩
  simp only [UnpackedFloat.round, decreaseExponent, targetExponent_eq, hshift, Nat.shiftLeft_eq]
  exact roundWithAccuracy_eq hlo hhi he

theorem round_near (hm : m ≠ 0) (he : -1022 ≤ m.log2 + e) :
    ∃ r e' hr, UnpackedFloat.round .binary64 s m e = .finite s r e' hr ∧ Rounds m e r e' := by
  rcases Nat.lt_or_ge m.log2 52 with hlog | hlog
  · obtain ⟨k, hk⟩ : ∃ k, m.log2 + k = 52 := ⟨52 - m.log2, by omega⟩
    obtain ⟨hr, heq⟩ := round_eq (s := s) (e := e) hm hk (by omega)
    obtain ⟨hlo, hhi⟩ := full_of_log2 hm hk
    have hvalue : ((m * 2 ^ k : Nat) : ℚ) * 2 ^ (e - k) = m * 2 ^ e := by
      push_cast
      rw [mul_assoc, ← zpow_natCast, ← zpow_add₀ (by norm_num), show (k : Int) + (e - k) = e by omega]
    refine ⟨_, _, hr, heq, hlo, hhi, by omega, by omega, ?_⟩
    rw [hvalue, sub_self, abs_zero]
    positivity
  · obtain ⟨k, hk⟩ : ∃ k, m.log2 = 52 + k := ⟨m.log2 - 52, by omega⟩
    have hshift : (e - max ((m.log2 : Int) + e - 52) (-1074)).toNat = 0 := by omega
    have hround : UnpackedFloat.round .binary64 s m e = roundWithAccuracy .binary64 s m e .exact := by
      simp only [UnpackedFloat.round, decreaseExponent, targetExponent_eq, hshift, Nat.shiftLeft_zero, Nat.cast_zero,
        sub_zero]
    rw [hround]
    exact roundWithAccuracy_near hk (by omega)

/-! ## Natural numbers -/

theorem ofNat_eq_round (hn : n ≠ 0) :
    UnpackedFloat.ofNat .binary64 n = UnpackedFloat.round .binary64 .positive n 0 := by
  have hcmp : compare (n : Int) 0 = .gt := compare_gt_iff_gt.mpr (by omega)
  simp only [UnpackedFloat.ofNat, ofInt, UnpackedFloat.normalize, hcmp, Int.toNat_natCast]

/-- The double of a number that fits in the mantissa. -/
theorem toFloat_unpack {w : UInt32} (hw : w ≠ 0) : ∃ hr,
    w.toFloat.toModel.unpack = .finite .positive (w.toNat * 2 ^ (52 - w.toNat.log2)) (w.toNat.log2 - 52) hr := by
  have hn : w.toNat ≠ 0 := fun h => hw (UInt32.toNat_inj.mp h)
  have hlog : w.toNat.log2 < 32 := (Nat.log2_lt hn).mpr w.toNat_lt
  obtain ⟨hr, hround⟩ := round_eq (s := .positive) (e := 0) (k := 52 - w.toNat.log2) hn (by omega) (by omega)
  obtain ⟨hlo, hhi⟩ := full_of_log2 (k := 52 - w.toNat.log2) hn (by omega)
  have he : (0 : Int) - (52 - w.toNat.log2 : Nat) = w.toNat.log2 - 52 := by omega
  rw [he] at hround
  refine ⟨hr, ?_⟩
  have hofNat : ofUInt32 .binary64 w = .finite .positive (w.toNat * 2 ^ (52 - w.toNat.log2)) (w.toNat.log2 - 52) hr :=
    (ofNat_eq_round hn).trans hround
  show unpack .binary64 (pack .binary64 (ofUInt32 .binary64 w)) = _
  rw [hofNat]
  exact unpack_pack ⟨hlo, hhi, by omega, by omega⟩

theorem lt_zero_of_unpack {x : Float} (hm : 0 < m) (h : x.toModel.unpack = .finite .negative m e hm) : x < 0 := by
  have hzero : (0 : Float).toModel.unpack = .zero .positive := by rfl
  show decide (x.toModel.unpack.lt (0 : Float).toModel.unpack = true) = true
  rw [h, hzero]
  rfl

/-- The difference of two numbers whose finer grid is `2 ^ e`. -/
theorem sub_finite {a b j : Nat} (ha : 0 < a) (hb : 0 < b) (hab : a < b * 2 ^ j) (hlo : -1022 ≤ e) (hhi : e ≤ 0)
    (hbits : b * 2 ^ j < 2 ^ 105) : ∃ r e' hr,
      sub .binary64 (.finite .positive a e ha) (.finite .positive b (e + j) hb) = .finite .negative r e' hr ∧
        IsNormal r e' := by
  have hdiff : b * 2 ^ j - a ≠ 0 := by omega
  have hlog : (b * 2 ^ j - a).log2 < 105 := (Nat.log2_lt hdiff).mpr (by omega)
  obtain ⟨r, e', hr, hround, hnear⟩ := round_near (s := .negative) (e := e) hdiff (by omega)
  refine ⟨r, e', hr, ?_, hnear.le_mantissa, hnear.mantissa_lt, ?_, ?_⟩
  · have hmin : min e (e + j) = e := by omega
    have hj : (e + j - e).toNat = j := by omega
    have hcmp : compare ((a : Int) - (b * 2 ^ j : Nat)) 0 = .lt := compare_lt_iff_lt.mpr (by omega)
    have hneg : (-((a : Int) - (b * 2 ^ j : Nat))).toNat = b * 2 ^ j - a := by omega
    simp only [sub, decreaseExponent, hmin, hj, sub_self, Int.toNat_zero, Nat.shiftLeft_eq, Nat.pow_zero, Nat.mul_one,
      Sign.apply, UnpackedFloat.normalize, hcmp, hneg, hround]
  · have := hnear.le_exponent
    omega
  · have := hnear.exponent_le
    omega

/-- The greater of two natural numbers taken off the smaller leaves less than nothing. -/
theorem sub_neg {a b : UInt32} (ha : a ≠ 0) (hab : a < b) : a.toFloat - b.toFloat < 0 := by
  have hlt : a.toNat < b.toNat := UInt32.lt_iff_toNat_lt.mp hab
  have ha' : a.toNat ≠ 0 := fun h => ha (UInt32.toNat_inj.mp h)
  have hb : b ≠ 0 := by
    rintro rfl
    exact UInt32.not_lt_zero hab
  have hlog : a.toNat.log2 ≤ b.toNat.log2 :=
    (Nat.le_log2 (by omega)).mpr ((Nat.log2_self_le ha').trans hlt.le)
  have hlog' : b.toNat.log2 < 32 := (Nat.log2_lt (by omega)).mpr b.toNat_lt
  have hgrid : b.toNat * 2 ^ (52 - b.toNat.log2) * 2 ^ (b.toNat.log2 - a.toNat.log2) =
      b.toNat * 2 ^ (52 - a.toNat.log2) := by
    rw [Nat.mul_assoc, ← Nat.pow_add]
    congr 2
    omega
  have hexp : (b.toNat.log2 : Int) - 52 = a.toNat.log2 - 52 + (b.toNat.log2 - a.toNat.log2 : Nat) := by omega
  have hbits : b.toNat * 2 ^ (52 - a.toNat.log2) < 2 ^ 105 :=
    calc b.toNat * 2 ^ (52 - a.toNat.log2) ≤ b.toNat * 2 ^ 52 :=
          Nat.mul_le_mul_left _ (Nat.pow_le_pow_right (by decide) (by omega))
      _ < 2 ^ 53 * 2 ^ 52 := Nat.mul_lt_mul_of_pos_right (b.toNat_lt.trans (by decide)) (by decide)
  obtain ⟨pa, hua⟩ := toFloat_unpack ha
  obtain ⟨pb, hub⟩ := toFloat_unpack hb
  obtain ⟨r, e', hr, hsub, hnormal⟩ := sub_finite (e := a.toNat.log2 - 52) pa pb
    (hgrid ▸ Nat.mul_lt_mul_of_pos_right hlt (Nat.two_pow_pos _)) (by omega) (by omega) (hgrid ▸ hbits)
  refine lt_zero_of_unpack (e := e') hr ?_
  show unpack .binary64 (pack .binary64 (sub .binary64 a.toFloat.toModel.unpack b.toFloat.toModel.unpack)) = _
  simp only [hua, hub, hexp, hsub]
  exact unpack_pack hnormal

end Checkup.Double
