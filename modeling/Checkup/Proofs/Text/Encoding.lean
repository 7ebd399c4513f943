import Mathlib.Tactic.SplitIfs
import Checkup.Proofs.Text.Bytes

/-!
# The bytes of a text

`Text.bytes` is the UTF-8 form of a text, whose offsets are the byte offsets of the text. In it an ASCII character is a
byte that no other character has. So the byte is found where the character stands (`getElem?_bytes_iff`), and among the
first bytes it is counted as often as the character among those that these bytes reach (`count_take_bytes`).
-/

namespace Checkup.Text

variable {c x : Char} {s t : Text} {b : UInt8} {k : Nat}

/-! ## One character -/

theorem utf8EncodeChar_ascii (hc : c.toNat < 128) : String.utf8EncodeChar c = [c.toUInt8] := by
  refine String.utf8EncodeChar_eq_singleton (Char.utf8Size_eq_one_iff.mpr ?_)
  exact UInt32.le_iff_toNat_le.mpr (Nat.le_of_lt_succ hc)

/-- The bytes of a character that is not in ASCII are none of ASCII. -/
theorem le_of_mem_utf8EncodeChar (hx : 128 ≤ x.toNat) (hb : b ∈ String.utf8EncodeChar x) : 128 ≤ b.toNat := by
  have hlarge : ¬ x.val.toNat ≤ 127 := Nat.not_le.mpr hx
  unfold String.utf8EncodeChar at hb
  dsimp only at hb
  rw [if_neg hlarge] at hb
  split_ifs at hb <;> simp only [List.mem_cons, List.not_mem_nil, or_false] at hb
  · rcases hb with rfl | rfl <;> rw [UInt8.toNat_ofNat'] <;> omega
  · rcases hb with rfl | rfl | rfl <;> rw [UInt8.toNat_ofNat'] <;> omega
  · rcases hb with rfl | rfl | rfl | rfl <;> rw [UInt8.toNat_ofNat'] <;> omega

theorem toNat_toUInt8 (hc : c.toNat < 128) : c.toUInt8.toNat = c.toNat := by
  have hsmall : c.val.toNat < 128 := hc
  rw [Char.toUInt8, UInt32.toNat_toUInt8, Nat.mod_eq_of_lt (by omega)]
  rfl

theorem eq_of_toUInt8_eq (hc : c.toNat < 128) (hx : x.toNat < 128) (h : c.toUInt8 = x.toUInt8) : c = x := by
  refine Char.toNat_inj.mp ?_
  rw [← toNat_toUInt8 hc, h, toNat_toUInt8 hx]

/-- The byte of an ASCII character is one of that character only. -/
theorem mem_utf8EncodeChar_iff (hc : c.toNat < 128) : c.toUInt8 ∈ String.utf8EncodeChar x ↔ x = c := by
  constructor
  · intro hmem
    rcases Nat.lt_or_ge x.toNat 128 with hx | hx
    · rw [utf8EncodeChar_ascii hx, List.mem_singleton] at hmem
      exact (eq_of_toUInt8_eq hc hx hmem).symm
    · have := le_of_mem_utf8EncodeChar hx hmem
      have := toNat_toUInt8 hc
      omega
  · rintro rfl
    rw [utf8EncodeChar_ascii hc]
    exact List.mem_singleton_self _

/-- It stands among the first bytes of the character, however few, if it stands among the bytes at all. -/
theorem count_take_utf8EncodeChar (hc : c.toNat < 128) (x : Char) (k : Nat) :
    ((String.utf8EncodeChar x).take (k + 1)).count c.toUInt8 = [x].count c := by
  by_cases hx : x = c
  · rw [hx, utf8EncodeChar_ascii hc, List.take_succ_cons, List.take_nil, List.count_singleton_self,
      List.count_singleton_self]
  · have hnot : c.toUInt8 ∉ (String.utf8EncodeChar x).take (k + 1) := fun hmem =>
      hx ((mem_utf8EncodeChar_iff hc).mp (List.mem_of_mem_take hmem))
    rw [List.count_eq_zero.mpr hnot, List.count_singleton, if_neg (by simpa using hx)]

/-! ## All bytes -/

/-- The bytes of a text in UTF-8. -/
def bytes (t : Text) : List UInt8 := t.flatMap String.utf8EncodeChar

theorem bytes_cons (x : Char) (t : Text) : bytes (x :: t) = String.utf8EncodeChar x ++ bytes t := List.flatMap_cons

@[simp] theorem bytes_append (s t : Text) : bytes (s ++ t) = bytes s ++ bytes t := List.flatMap_append

@[simp] theorem length_bytes (t : Text) : (bytes t).length = byteSize t := by
  induction t with
  | nil => rfl
  | cons x t ih => rw [bytes_cons, List.length_append, String.length_utf8EncodeChar, ih, byteSize_cons]

/-- **A character of ASCII among the bytes** stands where it stands in the text. -/
theorem getElem?_bytes_iff (hc : c.toNat < 128) :
    (bytes t)[k]? = some c.toUInt8 ↔ ∃ pre rest, t = pre ++ c :: rest ∧ k = byteSize pre := by
  constructor
  · intro h
    induction t generalizing k with
    | nil => cases h
    | cons x t ih =>
      rw [bytes_cons] at h
      by_cases hk : k < (String.utf8EncodeChar x).length
      · rw [List.getElem?_append_left hk] at h
        obtain rfl := (mem_utf8EncodeChar_iff hc).mp (List.mem_of_getElem? h)
        rw [utf8EncodeChar_ascii hc, List.length_singleton] at hk
        exact ⟨[], t, rfl, Nat.lt_one_iff.mp hk⟩
      · rw [List.getElem?_append_right (Nat.le_of_not_lt hk)] at h
        obtain ⟨pre, rest, rfl, hpre⟩ := ih h
        rw [String.length_utf8EncodeChar] at hk hpre
        exact ⟨x :: pre, rest, rfl, by rw [byteSize_cons]; omega⟩
  · rintro ⟨pre, rest, rfl, rfl⟩
    rw [bytes_append, bytes_cons, utf8EncodeChar_ascii hc, ← length_bytes, List.getElem?_append_right (Nat.le_refl _),
      Nat.sub_self]
    rfl

/-- Among the bytes that reach into a character, one of ASCII is counted as often as in the text up to that
character. -/
theorem count_take_bytes (hc : c.toNat < 128) {p : Text} (rest : Text) (hle : byteSize p ≤ k)
    (hlt : k < byteSize (p ++ [x])) :
    ((bytes (p ++ x :: rest)).take (k + 1)).count c.toUInt8 = (p ++ [x]).count c := by
  induction p generalizing k with
  | nil =>
    rw [List.nil_append, byteSize_singleton] at hlt
    rw [List.nil_append, bytes_cons, List.take_append_of_le_length (by rw [String.length_utf8EncodeChar]; omega)]
    exact count_take_utf8EncodeChar hc x k
  | cons y p ih =>
    rw [byteSize_cons] at hle
    rw [List.cons_append, byteSize_cons] at hlt
    -- all bytes of the first character, then bytes of those behind it
    have hall : (String.utf8EncodeChar y).take (k + 1) = String.utf8EncodeChar y :=
      List.take_of_length_le (by rw [String.length_utf8EncodeChar]; omega)
    have hrest : k + 1 - (String.utf8EncodeChar y).length = k - y.utf8Size + 1 := by
      rw [String.length_utf8EncodeChar]
      omega
    have hfirst := count_take_utf8EncodeChar hc y k
    rw [hall] at hfirst
    rw [List.cons_append, bytes_cons, List.take_append, hall, hrest, List.count_append, hfirst,
      ih (by omega) (by omega), ← List.count_append]
    rfl

/-- Each byte of a text belongs to a character of it. -/
theorem exists_reached (hk : k < byteSize t) :
    ∃ p x rest, t = p ++ x :: rest ∧ byteSize p ≤ k ∧ k < byteSize (p ++ [x]) := by
  have hle := byteSize_takeBytes_le k t
  have hsplit := takeBytes_append_dropBytes k t
  cases hrest : dropBytes k t with
  | nil =>
    rw [hrest, List.append_nil] at hsplit
    rw [hsplit] at hle
    omega
  | cons x rest => exact ⟨takeBytes k t, x, rest, hrest ▸ hsplit.symm, hle, lt_byteSize_of_dropBytes hrest⟩

end Checkup.Text
