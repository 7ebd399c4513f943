import Checkup.Text.Basic

/-!
# Cutting texts at byte offsets

An offset of a text is the byte size of what stands before it. At such offsets the cuts of a text are the parts of a
list: `dropBytes_append`, `takeBytes_append` and `slice_append` for a text that is given as parts, and
`byteSize_lt_iff` for the order of two offsets of one text.
-/

namespace Checkup.Text

theorem byteSize_cons (c : Char) (t : Text) : byteSize (c :: t) = c.utf8Size + byteSize t := by
  have shift : ∀ (t : Text) (n : Nat), t.foldl (fun n c => n + c.utf8Size) n = n + byteSize t := by
    intro t
    induction t with
    | nil => intro n; rfl
    | cons d t ih =>
      intro n
      unfold byteSize
      rw [List.foldl_cons, List.foldl_cons, ih, ih, Nat.zero_add, Nat.add_assoc]
  unfold byteSize
  rw [List.foldl_cons, shift, Nat.zero_add]
  rfl

@[simp] theorem byteSize_nil : byteSize [] = 0 := rfl

@[simp] theorem byteSize_append (s t : Text) : byteSize (s ++ t) = byteSize s + byteSize t := by
  induction s with
  | nil => simp
  | cons c s ih => rw [List.cons_append, byteSize_cons, byteSize_cons, ih, Nat.add_assoc]

theorem byteSize_singleton (c : Char) : byteSize [c] = c.utf8Size := by simp [byteSize_cons]

/-- Every character takes a byte at least. -/
theorem length_le_byteSize (t : Text) : t.length ≤ byteSize t := by
  induction t with
  | nil => exact Nat.le_refl 0
  | cons c t ih =>
    rw [byteSize_cons, List.length_cons, Nat.add_comm t.length]
    exact Nat.add_le_add c.utf8Size_pos ih

/-- A text has as many bytes as characters if and only if each takes one. -/
theorem byteSize_eq_length_iff {t : Text} : byteSize t = t.length ↔ ∀ x ∈ t, x.utf8Size = 1 := by
  induction t with
  | nil => simp
  | cons c t ih =>
    have hc := c.utf8Size_pos
    have ht := length_le_byteSize t
    rw [byteSize_cons, List.length_cons, List.forall_mem_cons, ← ih]
    omega

@[simp] theorem byteSize_eq_zero {t : Text} : byteSize t = 0 ↔ t = [] := by
  constructor
  · intro h
    have := length_le_byteSize t
    exact List.length_eq_zero_iff.mp (by omega)
  · rintro rfl; rfl

theorem byteSize_pos {t : Text} (h : t ≠ []) : 0 < byteSize t :=
  Nat.pos_of_ne_zero fun e => h (byteSize_eq_zero.mp e)

theorem byteSize_lt_append (t : Text) {s : Text} (h : s ≠ []) : byteSize t < byteSize (t ++ s) := by
  rw [byteSize_append]
  exact Nat.lt_add_of_pos_right (byteSize_pos h)

/-! ## Parts of a text -/

/-- What follows an offset is what follows the part before it. -/
@[simp] theorem dropBytes_append (pre rest : Text) : dropBytes (byteSize pre) (pre ++ rest) = rest := by
  induction pre with
  | nil =>
    cases rest with
    | nil => rfl
    | cons c rest =>
      rw [byteSize_nil, List.nil_append, dropBytes, if_pos c.utf8Size_pos]
  | cons c pre ih =>
    rw [List.cons_append, dropBytes, byteSize_cons, if_neg (by omega), Nat.add_sub_cancel_left, ih]

@[simp] theorem dropBytes?_append (pre rest : Text) : dropBytes? (byteSize pre) (pre ++ rest) = some rest := by
  induction pre with
  | nil => cases rest <;> rfl
  | cons c pre ih =>
    have := c.utf8Size_pos
    rw [List.cons_append, dropBytes?, byteSize_cons, if_neg (by omega), if_neg (by omega), Nat.add_sub_cancel_left, ih]

theorem takeBytesFrom_append (taken w rest : Text) :
    takeBytesFrom taken (byteSize w) (w ++ rest) = taken.reverse ++ w := by
  induction w generalizing taken with
  | nil =>
    cases rest with
    | nil => simp [takeBytesFrom]
    | cons c rest => simp [takeBytesFrom, c.utf8Size_pos]
  | cons c w ih =>
    rw [List.cons_append, takeBytesFrom, byteSize_cons, if_neg (by omega), Nat.add_sub_cancel_left, ih]
    simp

/-- What stands before an offset. -/
@[simp] theorem takeBytes_append (w rest : Text) : takeBytes (byteSize w) (w ++ rest) = w := by
  simp [takeBytes, takeBytesFrom_append]

@[simp] theorem takeBytes_zero (t : Text) : takeBytes 0 t = [] := takeBytes_append [] t

/-- The part between two offsets. -/
theorem slice_append (pre w post : Text) :
    slice (pre ++ (w ++ post)) (byteSize pre) (byteSize pre + byteSize w) = w := by
  rw [slice, dropBytes_append, Nat.add_sub_cancel_left, takeBytes_append]

/-- There is nothing between an offset and one that is not behind it. -/
theorem slice_of_le {start stop : Nat} (h : stop ≤ start) (t : Text) : slice t start stop = [] := by
  rw [slice, Nat.sub_eq_zero_of_le h, takeBytes_zero]

/-- A slice from an offset on is the start of what follows the offset. -/
theorem exists_slice (pre rest : Text) (stop : Nat) :
    ∃ tail, rest = slice (pre ++ rest) (byteSize pre) stop ++ tail := by
  have prefix_take (taken t : Text) (k : Nat) : ∃ tail, taken.reverse ++ t = takeBytesFrom taken k t ++ tail := by
    induction t generalizing taken k with
    | nil => exact ⟨[], by simp [takeBytesFrom]⟩
    | cons c t ih =>
      rw [takeBytesFrom]
      split
      · exact ⟨c :: t, rfl⟩
      · simpa using ih (c :: taken) (k - c.utf8Size)
  rw [slice, dropBytes_append]
  exact prefix_take [] rest _

theorem takeBytesFrom_append_dropBytes (taken : Text) (k : Nat) (t : Text) :
    takeBytesFrom taken k t ++ dropBytes k t = taken.reverse ++ t := by
  induction t generalizing taken k with
  | nil => rfl
  | cons c t ih =>
    rw [takeBytesFrom, dropBytes]
    split
    · rfl
    · rw [ih, List.reverse_cons, List.append_assoc]
      rfl

/-- The characters before an offset and those from it on are the text. -/
theorem takeBytes_append_dropBytes (k : Nat) (t : Text) : takeBytes k t ++ dropBytes k t = t :=
  takeBytesFrom_append_dropBytes [] k t

theorem takeBytes_prefix_self (k : Nat) (t : Text) : takeBytes k t <+: t := ⟨_, takeBytes_append_dropBytes k t⟩

theorem dropBytes_suffix_self (k : Nat) (t : Text) : dropBytes k t <:+ t := ⟨_, takeBytes_append_dropBytes k t⟩

theorem slice_infix_self (t : Text) (start stop : Nat) : slice t start stop <:+: t :=
  (takeBytes_prefix_self _ _).isInfix.trans (dropBytes_suffix_self start t).isInfix

/-- What follows an offset is the end of what follows one before. -/
theorem dropBytes_suffix {j k : Nat} (h : j ≤ k) (t : Text) : dropBytes k t <:+ dropBytes j t := by
  induction t generalizing j k with
  | nil => exact List.suffix_refl []
  | cons c t ih =>
    by_cases hj : j < c.utf8Size
    · have hall : dropBytes j (c :: t) = c :: t := by rw [dropBytes, if_pos hj]
      rw [hall]
      exact dropBytes_suffix_self k (c :: t)
    · rw [dropBytes, dropBytes, if_neg hj, if_neg (by omega)]
      exact ih (by omega)

theorem takeBytes_cons (k : Nat) (c : Char) (t : Text) :
    takeBytes k (c :: t) = if k < c.utf8Size then [] else c :: takeBytes (k - c.utf8Size) t := by
  have shift (taken t : Text) (k : Nat) : takeBytesFrom taken k t = taken.reverse ++ takeBytes k t := by
    suffices h : takeBytesFrom taken k t ++ dropBytes k t = (taken.reverse ++ takeBytes k t) ++ dropBytes k t from
      List.append_cancel_right h
    rw [List.append_assoc, takeBytes_append_dropBytes]
    exact takeBytesFrom_append_dropBytes taken k t
  rw [takeBytes, takeBytesFrom]
  split
  · rfl
  · exact shift [c] t _

/-- The characters before an offset end at it or before it. -/
theorem byteSize_takeBytes_le (k : Nat) (t : Text) : byteSize (takeBytes k t) ≤ k := by
  induction t generalizing k with
  | nil => exact Nat.zero_le k
  | cons c t ih =>
    rw [takeBytes_cons]
    split
    · exact Nat.zero_le k
    · have := ih (k - c.utf8Size)
      rw [byteSize_cons]
      omega

/-- The next character, if there is one, ends behind the offset. -/
theorem lt_byteSize_of_dropBytes {k : Nat} {c : Char} {t rest : Text} (h : dropBytes k t = c :: rest) :
    k < byteSize (takeBytes k t ++ [c]) := by
  induction t generalizing k with
  | nil => cases h
  | cons d t ih =>
    rw [dropBytes] at h
    rw [takeBytes_cons]
    split at h
    · rename_i hk
      cases h
      rwa [if_pos hk, List.nil_append, byteSize_singleton]
    · rename_i hk
      have := ih h
      rw [if_neg hk, List.cons_append, byteSize_cons]
      omega

/-! ## The order of offsets -/

variable {p q r s : Text}

/-- An offset is before another one of the same text if and only if the text before it is shorter. -/
theorem byteSize_lt_iff (h : p ++ r = q ++ s) : byteSize p < byteSize q ↔ p.length < q.length := by
  rcases List.append_eq_append_iff.mp h with ⟨w, rfl, _⟩ | ⟨w, rfl, _⟩
  · cases w with
    | nil => simp
    | cons c w =>
      have := byteSize_pos (List.cons_ne_nil c w)
      simp only [byteSize_append, List.length_append, List.length_cons]
      omega
  · simp only [byteSize_append, List.length_append]
    omega

/-- Two starts of a text that end at one offset are the same. -/
theorem eq_of_byteSize_eq (h : p ++ r = q ++ s) (hs : byteSize p = byteSize q) : p = q ∧ r = s := by
  have hl : p.length = q.length := by
    have h₁ := byteSize_lt_iff h
    have h₂ := byteSize_lt_iff h.symm
    omega
  exact List.append_inj h hl

/-- Of two starts of a text, the one with no more bytes is a start of the other. -/
theorem prefix_of_byteSize_le {t : Text} (hp : p <+: t) (hq : q <+: t) (h : byteSize p ≤ byteSize q) : p <+: q := by
  obtain ⟨r, hr⟩ := hp
  obtain ⟨s, hs⟩ := hq
  have hlt := byteSize_lt_iff (hs.trans hr.symm)
  exact List.prefix_of_prefix_length_le ⟨r, hr⟩ ⟨s, hs⟩ (by omega)

/-- What stands from one offset of a text to a later one. -/
theorem exists_between {c : Char} (h : p ++ c :: r = q ++ s) (hlt : byteSize p < byteSize q) :
    ∃ w, q = p ++ c :: w ∧ r = w ++ s := by
  rcases List.append_eq_append_iff.mp h with ⟨w, rfl, hw⟩ | ⟨w, rfl, _⟩
  · cases w with
    | nil => simp at hlt
    | cons d w =>
      obtain ⟨rfl, rfl⟩ := List.cons.inj hw
      exact ⟨w, rfl, rfl⟩
  · rw [byteSize_append] at hlt
    omega

end Checkup.Text
