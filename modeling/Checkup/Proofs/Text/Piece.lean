import Mathlib.Data.List.Induction
import Mathlib.Data.List.TakeWhile
import Checkup.Text.Basic

/-!
# Pieces of texts and the blanks around them

* `splitFrom_append_cons`, `split_join`: the pieces of a text are those that it was joined of.
* `lastPiece_append_cons`, `firstPiece_append_cons`: the piece behind the last separating character and the one before
  the first.
* `eq_lead`, `exists_trimEnd`: a text is in one way blanks in front of or behind a text that has none there.
* `trim_lead`, `trim_append`: blanks around a text make no difference once it is trimmed.
-/

namespace Checkup

namespace Text

variable {sep : Char → Bool} {c : Char} {lead t w : Text}

/-! ## Characters of a class -/

/-- A character of a class is no other one. -/
theorem beq_of_class {p : Char → Bool} {x : Char} (hc : p c = false) (hx : p x = true) : (x == c) = false :=
  beq_eq_false_iff_ne.mpr fun h => by simp [h, hc] at hx

theorem takeWhile_append_of_head {p : Char → Bool} (ht : ∀ x ∈ t, p x = true) (hw : ∀ x ∈ w.head?, p x = false) :
    (t ++ w).takeWhile p = t := by
  rw [List.takeWhile_append_of_pos ht]
  cases w with
  | nil => simp
  | cons c w => simp [hw c rfl]

/-- A text is in one way characters of a class in front of a text that starts with none. -/
theorem append_inj_of_class {p : Char → Bool} {u v : Text} (ht : ∀ x ∈ t, p x = true) (hu : ∀ x ∈ u, p x = true)
    (hw : ∀ x ∈ w.head?, p x = false) (hv : ∀ x ∈ v.head?, p x = false) (h : t ++ w = u ++ v) : t = u ∧ w = v := by
  have htu : t = u := by rw [← takeWhile_append_of_head ht hw, h, takeWhile_append_of_head hu hv]
  exact ⟨htu, List.append_cancel_left (htu ▸ h)⟩

/-! ## Pieces -/

/-- The pieces of a text with a separating character in it are those in front of it and those behind it. -/
theorem splitFrom_append_cons (hc : sep c = true) (piece a b : Text) :
    splitFrom sep piece (a ++ c :: b) = splitFrom sep piece a ++ split sep b := by
  induction a generalizing piece with
  | nil => simp only [List.nil_append, splitFrom, hc, if_true]; rfl
  | cons x a ih =>
    rw [List.cons_append, splitFrom, splitFrom]
    split
    · rw [ih, List.cons_append]
    · exact ih _

theorem splitFrom_of_forall (h : ∀ x ∈ t, sep x = false) (piece : Text) :
    splitFrom sep piece t = [piece.reverse ++ t] := by
  induction t generalizing piece with
  | nil => rw [splitFrom, List.append_nil]
  | cons x t ih =>
    obtain ⟨hx, h⟩ := List.forall_mem_cons.mp h
    rw [splitFrom, hx, if_neg Bool.false_ne_true, ih h, List.reverse_cons, List.append_assoc]
    rfl

/-- Texts without the separating character are the pieces of what they are joined to. -/
theorem split_join (sep : Char → Bool) (hc : sep c = true) {ts : List Text} (hne : ts ≠ [])
    (hts : ∀ t ∈ ts, ∀ x ∈ t, sep x = false) :
    split sep (join [c] ts) = ts := by
  induction ts with
  | nil => exact absurd rfl hne
  | cons t ts ih =>
    obtain ⟨ht, hts⟩ := List.forall_mem_cons.mp hts
    have hfirst : split sep t = [t] := splitFrom_of_forall ht []
    cases ts with
    | nil => simpa [join] using hfirst
    | cons t' ts =>
      have hjoin : join [c] (t :: t' :: ts) = t ++ c :: join [c] (t' :: ts) := by
        rw [join, List.intercalate_cons_cons, List.append_assoc]
        rfl
      rw [hjoin, split, splitFrom_append_cons hc, ih (List.cons_ne_nil t' ts) hts, ← split, hfirst]
      rfl

theorem mem_join {x : Char} {ts : List Text} (hx : x ∈ join [c] ts) : x = c ∨ ∃ t ∈ ts, x ∈ t := by
  induction ts with
  | nil => cases hx
  | cons t ts ih =>
    cases ts with
    | nil => exact Or.inr ⟨t, List.mem_cons_self, by simpa [join] using hx⟩
    | cons t' ts =>
      rw [join, List.intercalate_cons_cons, List.mem_append, List.mem_append, List.mem_singleton] at hx
      rcases hx with (hx | hx) | hx
      · exact Or.inr ⟨t, List.mem_cons_self, hx⟩
      · exact Or.inl hx
      · exact (ih hx).imp_right fun ⟨u, hu, hx⟩ => ⟨u, List.mem_cons_of_mem t hu, hx⟩

/-- Whether a piece starts behind the text. -/
def EndsPiece (sep : Char → Bool) (lead : Text) : Prop := lead = [] ∨ ∃ a c, sep c = true ∧ lead = a ++ [c]

theorem exists_split_append (hlead : EndsPiece sep lead) (h : ∀ x ∈ t, sep x = false) :
    ∃ pieces, split sep (lead ++ t) = pieces ++ [t] := by
  have ht : split sep t = [t] := splitFrom_of_forall h []
  rcases hlead with rfl | ⟨a, c, hc, rfl⟩
  · exact ⟨[], ht⟩
  · refine ⟨split sep a, ?_⟩
    rw [List.append_assoc, List.singleton_append, split, splitFrom_append_cons hc, ht]
    rfl

theorem lastPiece_append (hlead : EndsPiece sep lead) (h : ∀ x ∈ t, sep x = false) : lastPiece sep (lead ++ t) = t := by
  obtain ⟨pieces, hpieces⟩ := exists_split_append hlead h
  rw [lastPiece, hpieces, List.getLast?_concat, Option.getD_some]

theorem lastPiece_of_forall (h : ∀ x ∈ t, sep x = false) : lastPiece sep t = t := lastPiece_append (Or.inl rfl) h

/-- The text behind its last separating character, if there is any. -/
theorem exists_lastPiece (sep : Char → Bool) (t : Text) :
    ∃ lead, EndsPiece sep lead ∧ t = lead ++ lastPiece sep t ∧ ∀ x ∈ lastPiece sep t, sep x = false := by
  have hsplit : ∃ lead u, EndsPiece sep lead ∧ t = lead ++ u ∧ ∀ x ∈ u, sep x = false := by
    induction t using List.reverseRecOn with
    | nil => exact ⟨[], [], Or.inl rfl, rfl, List.forall_mem_nil _⟩
    | append_singleton t c ih =>
      cases hc : sep c with
      | true => exact ⟨t ++ [c], [], Or.inr ⟨t, c, hc, rfl⟩, (List.append_nil _).symm, List.forall_mem_nil _⟩
      | false =>
        obtain ⟨lead, u, hlead, rfl, hu⟩ := ih
        refine ⟨lead, u ++ [c], hlead, List.append_assoc lead u [c], fun x hx => ?_⟩
        rcases List.mem_append.mp hx with hx | hx
        · exact hu x hx
        · rwa [List.mem_singleton.mp hx]
  obtain ⟨lead, u, hlead, rfl, hu⟩ := hsplit
  rw [lastPiece_append hlead hu]
  exact ⟨lead, hlead, rfl, hu⟩

/-- What stands in front of a separating character is not part of the last piece. -/
theorem lastPiece_append_cons (sep : Char → Bool) (hc : sep c = true) (a b : Text) :
    lastPiece sep (a ++ c :: b) = lastPiece sep b := by
  obtain ⟨lead, hlead, hb, hlast⟩ := exists_lastPiece sep b
  have hlead' : EndsPiece sep (a ++ c :: lead) := by
    rcases hlead with rfl | ⟨d, x, hx, rfl⟩
    · exact Or.inr ⟨a, c, hc, rfl⟩
    · exact Or.inr ⟨a ++ c :: d, x, hx, by simp⟩
  have happend := lastPiece_append hlead' hlast
  rwa [List.append_assoc, List.cons_append, ← hb] at happend

/-- A text without the separating character makes the last piece longer. -/
theorem lastPiece_append_of_forall (hw : ∀ x ∈ w, sep x = false) (t : Text) :
    lastPiece sep (t ++ w) = lastPiece sep t ++ w := by
  obtain ⟨lead, hlead, ht, hlast⟩ := exists_lastPiece sep t
  have hall : ∀ x ∈ lastPiece sep t ++ w, sep x = false := fun x hx => (List.mem_append.mp hx).elim (hlast x) (hw x)
  have happend := lastPiece_append hlead hall
  rwa [← List.append_assoc, ← ht] at happend

theorem firstPiece_of_forall (h : ∀ x ∈ t, sep x = false) : firstPiece sep t = t :=
  List.takeWhile_eq_self_iff.mpr fun x hx => by simp [h x hx]

theorem firstPiece_append_cons (ht : ∀ x ∈ t, sep x = false) (hc : sep c = true) (rest : Text) :
    firstPiece sep (t ++ c :: rest) = t := by
  rw [firstPiece, List.takeWhile_append_of_pos fun x hx => by simp [ht x hx], List.takeWhile_cons, hc]
  exact List.append_nil t

/-- A text is in one way a first piece, a separating character and the rest. -/
theorem append_cons_inj (sep : Char → Bool) {s u v : Text} {d : Char} (hs : ∀ x ∈ s, sep x = false)
    (ht : ∀ x ∈ t, sep x = false)
    (hc : sep c = true) (hd : sep d = true) (h : s ++ c :: u = t ++ d :: v) : s = t ∧ c = d ∧ u = v := by
  have hst : s = t := by rw [← firstPiece_append_cons hs hc u, h, firstPiece_append_cons ht hd]
  subst hst
  exact ⟨rfl, List.cons.inj (List.append_cancel_left h)⟩

/-! ## Blanks -/

theorem trimStart_cons (hc : c.isBlank = false) (t : Text) : trimStart (c :: t) = c :: t :=
  List.dropWhile_cons_of_neg (by simp [hc])

theorem trimEnd_concat (t : Text) (c : Char) : trimEnd (t ++ [c]) = if c.isBlank then trimEnd t else t ++ [c] := by
  rw [trimEnd, trimEndBy, List.reverse_append, List.reverse_singleton, List.singleton_append, List.dropWhile_cons]
  split
  · rfl
  · simp

theorem trimEnd_append (hw : ∀ x ∈ w, x.isBlank = true) (t : Text) : trimEnd (t ++ w) = trimEnd t := by
  rw [trimEnd, trimEndBy, List.reverse_append, List.dropWhile_append_of_pos fun x hx => hw x (List.mem_reverse.mp hx)]
  rfl

/-- What ends with no blank is kept. -/
theorem trimEnd_append_cons (hc : c.isBlank = false) (u t : Text) : trimEnd (u ++ c :: t) = u ++ c :: trimEnd t := by
  rw [trimEnd, trimEndBy, List.reverse_append, List.reverse_cons, List.append_assoc, List.dropWhile_append,
    trimEnd, trimEndBy]
  split
  · rename_i hnil
    rw [List.isEmpty_iff.mp hnil, List.singleton_append, List.dropWhile_cons_of_neg (by simp [hc])]
    simp
  · simp

theorem exists_trimEndBy (p : Char → Bool) (t : Text) : ∃ w, (∀ x ∈ w, p x = true) ∧ t = trimEndBy p t ++ w := by
  refine ⟨(t.reverse.takeWhile p).reverse, fun x hx => List.mem_takeWhile_imp (List.mem_reverse.mp hx), ?_⟩
  rw [trimEndBy, ← List.reverse_append, List.takeWhile_append_dropWhile, List.reverse_reverse]

theorem exists_trimEnd (t : Text) : ∃ w, (∀ x ∈ w, x.isBlank = true) ∧ t = trimEnd t ++ w :=
  exists_trimEndBy Char.isBlank t

/-- A blank at the end is dropped first. -/
theorem trim_append (hw : ∀ x ∈ w, x.isBlank = true) (t : Text) : trim (t ++ w) = trim t := by
  rw [trim, trim, trimStart, trimStart, List.dropWhile_append]
  split
  · rename_i hnil
    rw [List.isEmpty_iff.mp hnil, List.dropWhile_eq_nil_iff.mpr hw]
  · exact trimEnd_append hw _

theorem trim_concat (hc : c.isBlank = true) (t : Text) : trim (t ++ [c]) = trim t :=
  trim_append (List.forall_mem_singleton.mpr hc) t

/-- Blanks at the start are dropped first. -/
theorem trim_lead (hlead : ∀ x ∈ lead, x.isBlank = true) (t : Text) : trim (lead ++ t) = trim t := by
  rw [trim, trimStart, List.dropWhile_append_of_pos hlead]
  rfl

/-- A text is what is left of it once it is trimmed, between blanks. -/
theorem exists_trim (t : Text) :
    ∃ lead w, (∀ x ∈ lead, x.isBlank = true) ∧ (∀ x ∈ w, x.isBlank = true) ∧ t = lead ++ (trim t ++ w) := by
  obtain ⟨w, hw, h⟩ := exists_trimEnd (trimStart t)
  refine ⟨t.takeWhile Char.isBlank, w, fun x hx => List.mem_takeWhile_imp hx, hw, ?_⟩
  rw [trim, ← h, trimStart, List.takeWhile_append_dropWhile]

theorem trim_infix_self (t : Text) : trim t <:+: t := by
  obtain ⟨lead, w, _, _, ht⟩ := exists_trim t
  exact ⟨lead, w, by rw [List.append_assoc]; exact ht.symm⟩

theorem mem_of_mem_trim (h : c ∈ trim t) : c ∈ t := (trim_infix_self t).subset h

/-- Only blanks are left in front of a text that is trimmed at its end. -/
theorem exists_lead_trimEnd (t : Text) : ∃ lead, (∀ x ∈ lead, x.isBlank = true) ∧ trimEnd t = lead ++ trim t := by
  have hlead : ∀ x ∈ t.takeWhile Char.isBlank, x.isBlank = true := fun x hx => List.mem_takeWhile_imp hx
  have ht : t.takeWhile Char.isBlank ++ trimStart t = t := List.takeWhile_append_dropWhile
  cases hstart : trimStart t with
  | nil =>
    rw [hstart, List.append_nil] at ht
    refine ⟨[], List.forall_mem_nil _, ?_⟩
    rw [trim, hstart, ← ht, ← List.nil_append (List.takeWhile _ t), trimEnd_append hlead]
    rfl
  | cons c u =>
    have hc : c.isBlank = false := by
      have := List.head?_dropWhile_not Char.isBlank t
      rw [← trimStart, hstart] at this
      simpa using this
    refine ⟨t.takeWhile Char.isBlank, hlead, ?_⟩
    rw [hstart] at ht
    rw [trim, hstart, ← List.nil_append (c :: u), trimEnd_append_cons hc, List.nil_append, ← trimEnd_append_cons hc, ht]

theorem trim_trimEnd (t : Text) : trim (trimEnd t) = trim t := by
  obtain ⟨w, hw, ht⟩ := exists_trimEnd t
  conv_rhs => rw [ht, trim_append hw]

theorem mem_trim (hc : c.isBlank = false) (h : c ∈ t) : c ∈ trim t := by
  obtain ⟨lead, w, hlead, hw, ht⟩ := exists_trim t
  have not_mem {u : Text} (hu : ∀ x ∈ u, x.isBlank = true) : c ∉ u := fun h => by simp [hu c h] at hc
  rw [ht, List.mem_append, List.mem_append] at h
  exact (h.resolve_left (not_mem hlead)).resolve_right (not_mem hw)

/-- A text that ends with no blank keeps its end. -/
theorem trimEnd_eq_self (ht : ∀ x ∈ t.getLast?, x.isBlank = false) : trimEnd t = t := by
  cases t using List.reverseRecOn with
  | nil => rfl
  | append_singleton t c => rw [trimEnd_concat, if_neg (by simp [ht c List.getLast?_concat])]

/-- What ends with no character of the class is kept. -/
theorem trimEndBy_append_of_last {p : Char → Bool} (hw : ∀ x ∈ w, p x = true) (ht : ∀ x ∈ t.getLast?, p x = false) :
    trimEndBy p (t ++ w) = t := by
  rw [trimEndBy, List.reverse_append, List.dropWhile_append_of_pos fun x hx => hw x (List.mem_reverse.mp hx)]
  cases t using List.reverseRecOn with
  | nil => rfl
  | append_singleton t c =>
    have hc : p c = false := ht c List.getLast?_concat
    rw [List.reverse_concat, List.dropWhile_cons_of_neg (by simp [hc]), List.reverse_cons, List.reverse_reverse]

/-- The last character of two texts in a row is that of the first one, or it is in the second one. -/
theorem mem_getLast?_append {x : Char} (h : x ∈ (t ++ w).getLast?) : x ∈ t.getLast? ∨ x ∈ w := by
  rw [List.getLast?_append] at h
  cases hw : w.getLast? with
  | none => exact Or.inl (by rwa [hw] at h)
  | some c =>
    rw [hw] at h
    exact Or.inr (List.mem_of_getLast? (hw.trans h))

/-- A text without blanks is kept. -/
theorem trim_of_forall (ht : ∀ x ∈ t, x.isBlank = false) : trim t = t := by
  have hstart : trimStart t = t := by
    cases t with
    | nil => rfl
    | cons c t => exact trimStart_cons (ht c List.mem_cons_self) t
  rw [trim, hstart]
  exact trimEnd_eq_self fun x hx => ht x (List.mem_of_getLast? hx)

end Text

/-- Blanks in front of a text that starts with none are what there is in front of it. -/
theorem eq_lead {lead t : Text} (hlead : ∀ x ∈ lead, x.isBlank = true) (ht : ∀ x ∈ t.head?, x.isBlank = false) :
    (lead ++ t).takeWhile Char.isBlank = lead ∧ Text.trimStart (lead ++ t) = t := by
  have htake := Text.takeWhile_append_of_head hlead ht
  have happend := List.takeWhile_append_dropWhile (p := Char.isBlank) (l := lead ++ t)
  rw [htake] at happend
  exact ⟨htake, List.append_cancel_left happend⟩

end Checkup
