import Mathlib.Data.List.Lex
import Checkup.Text.Basic

/-!
# The order of strings and of their bytes

Strings are compared character by character. UTF-8 keeps that order: of two characters the lesser has the lesser bytes,
and the bytes differ before those of either character end (`utf8EncodeChar_lt`). So comparing strings is comparing the
bytes that hold them (`bytes_lt_iff`).
-/

namespace Checkup.Text

/-- Of two numbers the lesser has the lesser quotient, or the same quotient and the lesser remainder. -/
theorem div_lt_or_mod_lt {m n : Nat} (k : Nat) (h : m < n) : m / k < n / k ∨ m / k = n / k ∧ m % k < n % k := by
  have hm := Nat.div_add_mod m k
  have hn := Nat.div_add_mod n k
  rcases Nat.lt_or_eq_of_le (Nat.div_le_div_right h.le : m / k ≤ n / k) with hlt | heq
  · exact Or.inl hlt
  · rw [heq] at hm
    exact Or.inr ⟨heq, by omega⟩

/-- The bytes of the lesser of two characters are less, whatever follows them. -/
theorem utf8EncodeChar_lt {c d : Char} (h : c < d) (u v : List UInt8) :
    String.utf8EncodeChar c ++ u < String.utf8EncodeChar d ++ v := by
  have hcd : c.val.toNat < d.val.toNat := UInt32.lt_iff_toNat_lt.mp (Char.lt_def.mp h)
  have hd : d.val.toNat < 0x110000 := by
    have := d.valid
    simp only [UInt32.isValidChar, Nat.isValidChar] at this
    omega
  unfold String.utf8EncodeChar
  generalize c.val.toNat = m at hcd
  generalize d.val.toNat = n at hcd hd
  dsimp only
  by_cases hm : m ≤ 0xFFFF
  · -- the first bytes differ unless both characters take the same number of bytes
    split_ifs <;>
      simp only [List.cons_append, List.nil_append, List.cons_lt_cons_iff, UInt8.lt_iff_toNat_lt, ← UInt8.toNat_inj,
        UInt8.toNat_ofNat'] <;>
      omega
  · -- both take four bytes, which are the digits of the numbers
    have h₁ := div_lt_or_mod_lt 64 hcd
    have h₂ := fun h => div_lt_or_mod_lt (m := m / 64) (n := n / 64) 64 h
    have h₃ := fun h => div_lt_or_mod_lt (m := m / 4096) (n := n / 4096) 64 h
    simp only [Nat.div_div_eq_div_mul, Nat.reduceMul] at h₂ h₃
    have hlead : m / 262144 % 8 = m / 262144 ∧ n / 262144 % 8 = n / 262144 := by omega
    simp only [show ¬ m ≤ 127 by omega, show ¬ m ≤ 2047 by omega, hm, show ¬ n ≤ 127 by omega,
      show ¬ n ≤ 2047 by omega, show ¬ n ≤ 65535 by omega, if_false]
    simp (disch := omega) only [List.cons_append, List.nil_append, List.cons_lt_cons_iff, UInt8.lt_iff_toNat_lt,
      ← UInt8.toNat_inj, UInt8.toNat_ofNat', Nat.mod_eq_of_lt, hlead]
    omega

/-- The bytes of the lesser of two texts are less. -/
theorem utf8_lt {s t : Text} (h : s < t) : s.flatMap String.utf8EncodeChar < t.flatMap String.utf8EncodeChar := by
  induction h with
  | nil =>
    obtain ⟨b, bs, hb⟩ := List.exists_cons_of_ne_nil (String.utf8EncodeChar_ne_nil (c := _))
    rw [List.flatMap_nil, List.flatMap_cons, hb]
    exact List.nil_lt_cons _ _
  | rel h => exact utf8EncodeChar_lt h _ _
  | cons h ih =>
    rw [List.flatMap_cons, List.flatMap_cons]
    exact List.append_left_lt ih

theorem utf8_lt_iff {s t : Text} : s.flatMap String.utf8EncodeChar < t.flatMap String.utf8EncodeChar ↔ s < t := by
  refine ⟨fun h => ?_, utf8_lt⟩
  rcases Std.lt_trichotomy s t with hlt | rfl | hgt
  · exact hlt
  · exact absurd h (List.lt_irrefl _)
  · exact absurd h (List.lt_asymm (utf8_lt hgt))

/-- The bytes that hold a string are those of its characters. -/
theorem toByteArray_toList (a : String) : a.toByteArray.data.toList = a.toList.flatMap String.utf8EncodeChar := by
  conv_lhs => rw [← String.ofList_toList (s := a)]
  rw [String.toByteArray_ofList, List.utf8Encode, List.toList_data_toByteArray]

/-- One string comes before another exactly if its bytes do. -/
theorem bytes_lt_iff {a b : String} : a.toByteArray.data.toList < b.toByteArray.data.toList ↔ a < b := by
  rw [toByteArray_toList, toByteArray_toList, utf8_lt_iff]
  rfl

end Checkup.Text
