import Checkup.Json.Numeral
import Checkup.Proofs.Double.Round

/-!
# Products within the range

A product of doubles is finite if the numbers that they stand for have a product below the end of the range, by a
little more than the three roundings can take away (`limit`).

* `IsAbout`: a double that stands for a number, greater by one rounding at most. Words (`toFloat_isAbout`) and powers of
  ten (`tenTo_isAbout`) have one.
* `mul_isInf`: the product is finite.
* `toDouble_isSome`: so every decimal number below the limit has a double.
-/

open Float.Model (Format UnpackedFloat totalExponent)
open Float.Model.UnpackedFloat

namespace Checkup.Double

variable {m n w p : Nat} {e : Int} {x y : Float} {v u : ℚ}

/-- The end of the range. -/
@[irreducible]
def top : ℚ := 2 ^ 1024

/-- What one rounding leaves of a number at least. -/
def loss : ℚ := 1 - 1 / 2 ^ 52

/-- Below this number three roundings do not reach the end of the range. -/
def limit : ℚ := top * loss ^ 3

theorem loss_pos : 0 < loss := by norm_num [loss]

/-- The end of the range, less one unit in the last place of the doubles that would follow. -/
theorem top_eq : top * loss = (2 ^ 52 - 1) * 2 ^ (972 : Int) := by
  have hsplit : top = 2 ^ 52 * 2 ^ (972 : Int) := by
    rw [top]
    exact pow_add 2 52 972
  have hloss : 2 ^ 52 * loss = 2 ^ 52 - 1 := by norm_num [loss]
  rw [hsplit, mul_right_comm, hloss]

/-- A normal double, one or more, that is at most one rounding greater than the number. -/
structure IsAbout (x : Float) (v : ℚ) (m : Nat) (e : Int) : Prop where
  normal : IsNormal m e
  low : -52 ≤ e
  unpack_eq : x.toModel.unpack = .finite .positive m e normal.pos
  le_value : m * 2 ^ e * loss ≤ v

/-- A unit of the last place is at most so much of the number. -/
theorem loss_le (hlo : 2 ^ 52 ≤ m) : (m : ℚ) * 2 ^ e * loss ≤ m * 2 ^ e - 2 ^ e := by
  have hm : (2 ^ 52 : ℚ) ≤ m := by exact_mod_cast hlo
  have hpos : (0 : ℚ) < 2 ^ e := by positivity
  have hunit : (2 : ℚ) ^ e ≤ m * 2 ^ e * (1 / 2 ^ 52) := by
    rw [mul_one_div, le_div_iff₀ (by positivity)]
    nlinarith
  rw [loss]
  linarith

/-- A number below the limit is not rounded to the end of the range. -/
theorem Rounds.exponent_le_of_lt {r : Nat} {e' : Int} (h : Rounds m e r e') (hlt : (m : ℚ) * 2 ^ e < top * loss) :
    e' ≤ 971 := by
  by_contra hgt
  have hr : (2 ^ 52 : ℚ) ≤ r := by exact_mod_cast h.le_mantissa
  have hpow : (2 : ℚ) ^ (972 : Int) ≤ 2 ^ e' := zpow_le_zpow_right₀ (by norm_num) (by omega)
  have hdiff := (abs_le.mp h.near).2
  have hlow : top * loss ≤ (r - 1) * 2 ^ e' :=
    calc top * loss = (2 ^ 52 - 1) * 2 ^ (972 : Int) := top_eq
      _ ≤ (r - 1) * 2 ^ e' := mul_le_mul (by linarith) hpow (by positivity) (by linarith)
  linarith

/-- What rounding a number makes of it. -/
theorem Rounds.isAbout {r : Nat} {e' : Int} {hr : 0 < r} (h : Rounds m e r e') (hlow : -52 ≤ e') (hhigh : e' ≤ 971)
    (hx : x.toModel = Float.Model.pack (.finite .positive r e' hr)) : IsAbout x (m * 2 ^ e) r e' := by
  have hnormal : IsNormal r e' := ⟨h.le_mantissa, h.mantissa_lt, by omega, hhigh⟩
  refine ⟨hnormal, hlow, ?_, ?_⟩
  · rw [hx]
    exact unpack_pack hnormal
  · have hdiff := (abs_le.mp h.near).2
    linarith [loss_le (e := e') h.le_mantissa]

theorem toFloat_isAbout {w : UInt64} (hw : w ≠ 0) : ∃ m e, IsAbout w.toFloat w.toNat m e := by
  have hn : w.toNat ≠ 0 := fun h => hw (UInt64.toNat_inj.mp h)
  have hlog : w.toNat.log2 < 64 := (Nat.log2_lt hn).mpr w.toNat_lt
  obtain ⟨r, e, hr, hround, hnear⟩ := round_near (s := .positive) (e := 0) hn (by omega)
  have hlow := hnear.le_exponent
  have hhigh := hnear.exponent_le
  have hofNat : ofUInt64 .binary64 w = .finite .positive r e hr := (ofNat_eq_round hn).trans hround
  have hvalue : (w.toNat : ℚ) * 2 ^ (0 : Int) = w.toNat := by rw [zpow_zero, mul_one]
  exact ⟨r, e, hvalue ▸ hnear.isAbout (by omega) (by omega) (congrArg Float.Model.pack hofNat)⟩

/-! ## Powers of ten -/

/-- Whether the double is about the natural number, by calculation. -/
def isAbout (x : Float) (n : Nat) : Bool :=
  match x.toModel.unpack with
  | .finite .positive m e _ =>
    2 ^ 52 ≤ m && m < 2 ^ 53 && -52 ≤ e && e ≤ 971 && m * 2 ^ e.toNat * (2 ^ 52 - 1) ≤ n * 2 ^ 52 * 2 ^ (-e).toNat
  | _ => false

theorem isAbout_of_eq_true (h : isAbout x n = true) : ∃ m e, IsAbout x n m e := by
  unfold isAbout at h
  split at h
  · rename_i m e hm hunpack
    simp only [Bool.and_eq_true, decide_eq_true_eq] at h
    obtain ⟨⟨⟨⟨hlo, hhi⟩, hmin⟩, hmax⟩, hvalue⟩ := h
    refine ⟨m, e, ⟨hlo, hhi, by omega, hmax⟩, hmin, hunpack, ?_⟩
    have hcast : (m : ℚ) * 2 ^ e.toNat * (2 ^ 52 - 1) ≤ n * 2 ^ 52 * 2 ^ (-e).toNat := by
      have hone : ((2 ^ 52 - 1 : Nat) : ℚ) = 2 ^ 52 - 1 := by norm_num
      rw [← hone]
      exact_mod_cast hvalue
    have he : (2 : ℚ) ^ e * 2 ^ (-e).toNat = 2 ^ e.toNat := by
      rw [← zpow_natCast, ← zpow_natCast, ← zpow_add₀ (by norm_num)]
      congr 1
      omega
    have hloss : loss * 2 ^ 52 = 2 ^ 52 - 1 := by norm_num [loss]
    have hpos : (0 : ℚ) < 2 ^ (-e).toNat * 2 ^ 52 := by positivity
    refine le_of_mul_le_mul_right ?_ hpos
    calc (m : ℚ) * 2 ^ e * loss * ((2 : ℚ) ^ (-e).toNat * 2 ^ 52)
        = m * ((2 : ℚ) ^ e * 2 ^ (-e).toNat) * (loss * 2 ^ 52) := by ring
      _ = (m : ℚ) * 2 ^ e.toNat * (2 ^ 52 - 1) := by rw [he, hloss]
      _ ≤ (n : ℚ) * 2 ^ 52 * 2 ^ (-e).toNat := hcast
      _ = n * ((2 : ℚ) ^ (-e).toNat * 2 ^ 52) := by ring
  · cases h

theorem tenTo_lt (hp : p ≤ 308) : ((10 ^ p : Nat) : ℚ) < top * loss := by
  have hlast : 10 ^ 308 < (2 ^ 52 - 1) * 2 ^ 972 := by decide +kernel
  have hle : 10 ^ p ≤ 10 ^ 308 := pow_le_pow_right₀ (by decide) hp
  have hcast : ((10 ^ p : Nat) : ℚ) < ((2 ^ 52 - 1) * 2 ^ 972 : Nat) := Nat.cast_lt.mpr (hle.trans_lt hlast)
  have htop : (((2 ^ 52 - 1) * 2 ^ 972 : Nat) : ℚ) = top * loss := by
    rw [top_eq, Nat.cast_mul, Nat.cast_pow, Nat.cast_sub (by decide)]
    rfl
  exact htop ▸ hcast

theorem log2_two_pow_mul (k : Nat) (hn : n ≠ 0) : (2 ^ k * n).log2 = k + n.log2 := by
  have hlog := (Nat.log2_eq_iff hn).mp rfl
  refine (Nat.log2_eq_iff (by positivity)).mpr ⟨?_, ?_⟩
  · rw [Nat.pow_add]
    exact Nat.mul_le_mul_left _ hlog.1
  · rw [Nat.add_assoc, Nat.pow_add]
    exact Nat.mul_lt_mul_of_pos_left hlog.2 (by positivity)

/-- The powers that have to be calculated. -/
theorem tenTo_toModel (hlo : 23 ≤ p) (hp : p ≤ 308) : (Json.Numeral.tenTo p).toModel =
    Float.Model.pack (roundWithAccuracy .binary64 .positive (2 ^ 53 * 10 ^ p) (-53) .exact) := by
  have hslow : ¬(1 < 2 ^ 53 ∧ p ≤ 22) := by omega
  have hbits : (2 : Int) ^ Format.binary64.exponentBits = 2048 := rfl
  have hlarge : ¬((p : Int) > 2 ^ Format.binary64.exponentBits) := by omega
  have hsmall : ¬((p : Int) < -(2 ^ Format.binary64.exponentBits + (1 : Nat).log2)) := by omega
  have htenTo : Json.Numeral.tenTo p = Float.ofModel (Float.Model.ofScientific 1 (Int.ofNat p)) := by
    show Float.ofScientific 1 false p = _
    simp only [Float.ofScientific, dif_neg hslow]
    rfl
  have hmul : UnpackedFloat.ofScientific .binary64 1 p =
      roundWithAccuracy .binary64 .positive (2 ^ 53 * 10 ^ p) (-53) .exact := by
    rw [UnpackedFloat.ofScientific, dif_neg one_ne_zero, if_neg hlarge, if_neg hsmall, if_pos (Int.natCast_nonneg p)]
    rfl
  rw [htenTo]
  exact congrArg Float.Model.pack hmul

theorem tenTo_isAbout (hp : p ≤ 308) : ∃ m e, IsAbout (Json.Numeral.tenTo p) (10 ^ p : Nat) m e := by
  rcases Nat.lt_or_ge p 23 with hlt | hge
  · -- these powers are looked up
    have hall : ∀ i : Fin 23, isAbout (Json.Numeral.tenTo i) (10 ^ i.val) = true := by decide +kernel
    exact isAbout_of_eq_true (hall ⟨p, hlt⟩)
  · have hlog : (2 ^ 53 * 10 ^ p).log2 = 52 + (1 + (10 ^ p).log2) :=
      (log2_two_pow_mul 53 (by positivity)).trans (Nat.add_assoc 52 1 _)
    have hvalue : ((2 ^ 53 * 10 ^ p : Nat) : ℚ) * 2 ^ (-53 : Int) = (10 ^ p : Nat) := by
      rw [Nat.cast_mul, mul_right_comm]
      norm_num
    obtain ⟨r, e, hr, hround, hnear⟩ := roundWithAccuracy_near (s := .positive) (e := -53) hlog (by omega)
    have hlow := hnear.le_exponent
    have hhigh := hnear.exponent_le_of_lt (hvalue ▸ tenTo_lt hp)
    have hmodel := (tenTo_toModel hge hp).trans (congrArg _ hround)
    exact ⟨r, e, hvalue ▸ hnear.isAbout (by omega) hhigh hmodel⟩

/-! ## Products -/

/-- The product of two numbers below the limit is finite. -/
theorem mul_isInf {m₁ m₂ : Nat} {e₁ e₂ : Int} (hx : IsAbout x v m₁ e₁) (hy : IsAbout y u m₂ e₂) (hv : 0 ≤ v)
    (hlt : v * u < limit) : (x * y).isInf = false := by
  have hlo : 2 ^ 52 * 2 ^ 52 ≤ m₁ * m₂ := Nat.mul_le_mul hx.normal.le_mantissa hy.normal.le_mantissa
  have hhi : m₁ * m₂ < 2 ^ 53 * 2 ^ 53 := Nat.mul_lt_mul'' hx.normal.mantissa_lt hy.normal.mantissa_lt
  have hmin : 104 ≤ (m₁ * m₂).log2 := (Nat.le_log2 (by omega)).mpr hlo
  have hmax : (m₁ * m₂).log2 < 106 := (Nat.log2_lt (by omega)).mpr hhi
  have hlow₁ := hx.low
  have hlow₂ := hy.low
  obtain ⟨k, hk⟩ : ∃ k, (m₁ * m₂).log2 = 52 + k := ⟨(m₁ * m₂).log2 - 52, by omega⟩
  obtain ⟨r, e, hr, hround, hnear⟩ := roundWithAccuracy_near (s := .positive) (e := e₁ + e₂) hk (by omega)
  have hprod : ((m₁ * m₂ : Nat) : ℚ) * 2 ^ (e₁ + e₂) < top * loss := by
    have hfactors : (m₁ * 2 ^ e₁ * loss) * (m₂ * 2 ^ e₂ * loss) < top * loss * loss ^ 2 :=
      calc (m₁ * 2 ^ e₁ * loss) * (m₂ * 2 ^ e₂ * loss) ≤ v * u :=
            mul_le_mul hx.le_value hy.le_value (by have := loss_pos; positivity) hv
        _ < limit := hlt
        _ = top * loss * loss ^ 2 := by rw [limit, mul_assoc, ← pow_succ']
    refine lt_of_mul_lt_mul_right ?_ (pow_pos loss_pos 2).le
    refine lt_of_eq_of_lt ?_ hfactors
    rw [Nat.cast_mul, zpow_add₀ (by norm_num)]
    ring
  have hnormal : IsNormal r e := ⟨hnear.le_mantissa, hnear.mantissa_lt, by have := hnear.le_exponent; omega,
    hnear.exponent_le_of_lt hprod⟩
  have hmul : (x * y).toModel.unpack = .finite .positive r e hnormal.pos := by
    show unpack .binary64 (pack .binary64 (mul .binary64 x.toModel.unpack y.toModel.unpack)) = _
    rw [hx.unpack_eq, hy.unpack_eq]
    show unpack .binary64 (pack .binary64 (roundWithAccuracy .binary64 .positive (m₁ * m₂) (e₁ + e₂) .exact)) = _
    rw [hround]
    exact unpack_pack hnormal
  show (x * y).toModel.unpack.isInf = false
  rw [hmul]
  rfl

theorem zero_mul_isInf (hy : IsAbout y u m e) : ((0 : UInt64).toFloat * y).isInf = false := by
  have hzero : (0 : UInt64).toFloat.toModel.unpack = .zero .positive := by rfl
  show (unpack .binary64 (pack .binary64 (mul .binary64 _ y.toModel.unpack))).isInf = false
  rw [hzero, hy.unpack_eq]
  show (unpack .binary64 (packedZero .binary64 .positive)).isInf = false
  rw [unpack_packedZero]
  rfl

theorem limit_lt : limit < (10 ^ 309 : Nat) := by
  have hnat : 2 ^ 1024 < 10 ^ 309 := by decide +kernel
  have htop : top = (2 ^ 1024 : Nat) := by rw [top, Nat.cast_pow, Nat.cast_two]
  have hloss : loss ^ 3 ≤ 1 := by norm_num [loss]
  calc limit ≤ top * 1 := mul_le_mul_of_nonneg_left hloss (htop.symm ▸ Nat.cast_nonneg _)
    _ = (2 ^ 1024 : Nat) := by rw [mul_one, htop]
    _ < (10 ^ 309 : Nat) := Nat.cast_lt.mpr hnat

/-- A power that is beyond the range takes every number but zero beyond the limit. -/
theorem power_le {power : Int} (hw : w ≠ 0) (hlt : (w : ℚ) * 10 ^ power < limit) : power ≤ 308 := by
  by_contra hlarge
  have hone : (1 : ℚ) ≤ w := by exact_mod_cast Nat.one_le_iff_ne_zero.mpr hw
  have hpow : (10 : ℚ) ^ (309 : Int) ≤ 10 ^ power := zpow_le_zpow_right₀ (by norm_num) (by omega)
  have hbeyond : ((10 ^ 309 : Nat) : ℚ) ≤ w * 10 ^ power :=
    calc ((10 ^ 309 : Nat) : ℚ) = 10 ^ (309 : Int) := by rw [Nat.cast_pow]; rfl
      _ ≤ 10 ^ power := hpow
      _ ≤ w * 10 ^ power := le_mul_of_one_le_left (by positivity) hone
  exact hlt.not_gt (limit_lt.trans_le hbeyond)

theorem mul_tenTo_isInf {word : UInt64} (hp : p ≤ 308) (hlt : (word.toNat : ℚ) * (10 ^ p : Nat) < limit) :
    (word.toFloat * Json.Numeral.tenTo p).isInf = false := by
  obtain ⟨m, e, hten⟩ := tenTo_isAbout hp
  by_cases hword : word = 0
  · rw [hword]
    exact zero_mul_isInf hten
  · obtain ⟨m', e', habout⟩ := toFloat_isAbout hword
    exact mul_isInf habout hten (Nat.cast_nonneg _) hlt

/-- A decimal number below the limit has a double. -/
theorem toDouble_isSome {power : Int} (hw : w < 2 ^ 64) (hlt : (w : ℚ) * 10 ^ power < limit) :
    (Json.Numeral.toDouble w power).isSome = true := by
  unfold Json.Numeral.toDouble
  dsimp only
  split
  · rfl
  split
  · rename_i hlarge
    split
    · rfl
    · rename_i hw0
      exact absurd (power_le hw0 hlt) (by omega)
  · rename_i hneg hle
    have htoNat : w.toUInt64.toNat = w := Nat.mod_eq_of_lt hw
    have hvalue : ((10 ^ power.toNat : Nat) : ℚ) = 10 ^ power := by
      rw [Nat.cast_pow, ← zpow_natCast, Int.toNat_of_nonneg (by omega)]
      rfl
    have hfinite := @mul_tenTo_isInf power.toNat w.toUInt64 (by omega) (by rwa [htoNat, hvalue])
    rw [hfinite]
    rfl

end Checkup.Double
