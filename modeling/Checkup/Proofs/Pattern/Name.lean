import Checkup.Pattern.Class
import Checkup.Proofs.Pattern.Shape
import Checkup.Proofs.Text.Mention
import Checkup.Proofs.Text.Piece

/-!
# Names and the words in front of them

The characters of an identifier may stand in a name (`isName_of_isIdent`), and no name has a blank. A declaration may
start with words such as `export`. Where such words and the keyword start with different letters there is one way to
tell them apart (`IsModifier.append_inj`).
-/

namespace Checkup.Pattern

variable {word s t u v pre post w : Text} {c : Char} {g g' : Marks}

/-! ## Names -/

theorem isName_of_isIdent (hc : c.isIdent = true) : c.isName = true := by
  rw [Char.isIdent, Bool.or_eq_true, Bool.or_eq_true] at hc
  rcases hc with (hc | hc) | hc
  · have hascii : c.toNat < 128 := by
      change c.val.toNat < 128
      rcases Bool.or_eq_true_iff.mp hc with halpha | hdigit
      · rcases Bool.or_eq_true_iff.mp halpha with hupper | hlower
        · have : c.val.toNat ≤ 90 := (of_decide_eq_true hupper).2
          omega
        · have : c.val.toNat ≤ 122 := of_decide_eq_true (Bool.and_eq_true_iff.mp hlower).2
          omega
      · have : c.val.toNat ≤ 57 := of_decide_eq_true (Bool.and_eq_true_iff.mp hdigit).2
        omega
    simp [Char.isName, Char.isWord_of_ascii hascii, Char.isAsciiWord, hc]
  · rw [eq_of_beq hc]
    rfl
  · rw [eq_of_beq hc]
    rfl

theorem isName_of_isIdentStart (hc : c.isIdentStart = true) : c.isName = true :=
  isName_of_isIdent (Text.isIdent_of_isIdentStart hc)

theorem not_isBlank_of_isName (hc : c.isName = true) : c.isBlank = false := not_isBlank_of (by decide +kernel) hc

/-- Whether the text is a name that starts with a capital. -/
def IsCapitalName (name : Text) : Prop := ∃ x rest, name = x :: rest ∧ x.isUpper = true ∧ ∀ y ∈ rest, y.isName = true

theorem IsCapitalName.isName (hname : IsCapitalName w) : ∀ x ∈ w, x.isName = true := by
  obtain ⟨x, rest, rfl, hx, hrest⟩ := hname
  have hletter : x.isAlpha = true := Bool.or_eq_true_iff.mpr (Or.inl hx)
  have hstart : x.isIdentStart = true := by simp [Char.isIdentStart, hletter]
  exact List.forall_mem_cons.mpr ⟨isName_of_isIdentStart hstart, hrest⟩

theorem capitalName_takes_iff : capitalName.Takes pre w post g g' ↔ IsCapitalName w ∧ g' = g := by
  constructor
  · rintro ⟨_, rest, _, rfl, ⟨⟨x, rfl, hx⟩, rfl⟩, hrest, rfl⟩
    exact ⟨⟨x, rest, rfl, hx, hrest⟩, rfl⟩
  · rintro ⟨⟨x, rest, rfl, hx, hrest⟩, rfl⟩
    exact ⟨[x], rest, _, rfl, ⟨⟨x, rfl, hx⟩, rfl⟩, hrest, rfl⟩

/-! ## Words in front of a keyword -/

/-- Whether the text is a word with blanks behind it, or empty. -/
def IsModifier (word t : Text) : Prop := t = [] ∨ ∃ space, t = word ++ space ∧ space ≠ [] ∧
    ∀ x ∈ space, x.isBlank = true

/-- There is one way to read a word that may stand in front of what does not start like it. -/
theorem IsModifier.append_inj (hs : IsModifier (c :: word) s) (ht : IsModifier (c :: word) t)
    (hu : ∀ x ∈ u.head?, x ≠ c ∧ x.isBlank = false) (hv : ∀ x ∈ v.head?, x ≠ c ∧ x.isBlank = false)
    (h : s ++ u = t ++ v) : s = t ∧ u = v := by
  -- what does not start like the word is not the word with something behind it
  have hne {space : Text} {a b : Text} (ha : ∀ x ∈ a.head?, x ≠ c ∧ x.isBlank = false) :
      a ≠ c :: word ++ space ++ b := fun e =>
    (ha c (by rw [e]; rfl)).1 rfl
  rcases hs with rfl | ⟨space, rfl, _, hspace⟩ <;> rcases ht with rfl | ⟨space', rfl, _, hspace'⟩
  · exact ⟨rfl, h⟩
  · exact absurd h (hne hu)
  · exact absurd h.symm (hne hv)
  · rw [List.append_assoc, List.append_assoc] at h
    obtain ⟨rfl, huv⟩ := Text.append_inj_of_class hspace hspace' (fun x hx => (hu x hx).2) (fun x hx => (hv x hx).2)
      (List.append_cancel_left h)
    exact ⟨rfl, huv⟩

/-- What starts with such a word, or behind it. -/
theorem IsModifier.head (hs : IsModifier (c :: word) s) {x : Char} (hx : x ∈ (s ++ t).head?) : x = c ∨ x ∈ t.head? := by
  rcases hs with rfl | ⟨space, rfl, _⟩
  · exact Or.inr hx
  · cases hx
    exact Or.inl rfl

theorem IsModifier.mem (hs : IsModifier word s) {x : Char} (hx : x ∈ s) : x ∈ word ∨ x.isBlank = true := by
  rcases hs with rfl | ⟨space, rfl, _, hspace⟩
  · cases hx
  · exact (List.mem_append.mp hx).imp_right (hspace x)

theorem gap_takes_iff : gap.Takes pre w post g g' ↔ (w ≠ [] ∧ ∀ x ∈ w, x.isBlank = true) ∧ g' = g := by
  constructor
  · rintro ⟨_, space, _, rfl, ⟨⟨x, rfl, hx⟩, rfl⟩, hspace, rfl⟩
    exact ⟨⟨by simp, List.forall_mem_cons.mpr ⟨hx, hspace⟩⟩, rfl⟩
  · rintro ⟨⟨hne, hblank⟩, rfl⟩
    obtain ⟨x, space, rfl⟩ := List.exists_cons_of_ne_nil hne
    obtain ⟨hx, hspace⟩ := List.forall_mem_cons.mp hblank
    exact ⟨[x], space, _, rfl, ⟨⟨x, rfl, hx⟩, rfl⟩, hspace, rfl⟩

theorem groupless_literal (t : Text) : (literal t).groupless = true := by
  induction t using literal.induct with
  | case1 => rfl
  | case2 c => rfl
  | case3 c t hne ih =>
    rw [literal.eq_3 c t hne, groupless, ih]
    rfl

theorem modifier_takes_iff : (opt (literal word ++ gap)).Takes pre w post g g' ↔ IsModifier word w ∧ g' = g := by
  constructor
  · rintro (⟨_, space, _, rfl, hword, hspace⟩ | ⟨rfl, rfl⟩)
    · obtain ⟨hblank, rfl⟩ := gap_takes_iff.mp hspace
      rw [literal_takes hword, groupless_takes (groupless_literal word) hword]
      exact ⟨Or.inr ⟨space, rfl, hblank⟩, rfl⟩
    · exact ⟨Or.inl rfl, rfl⟩
  · rintro ⟨rfl | ⟨space, rfl, hspace⟩, rfl⟩
    · exact Or.inr ⟨rfl, rfl⟩
    · exact Or.inl ⟨word, space, _, rfl, takes_literal _ _ _ _, gap_takes_iff.mpr ⟨hspace, rfl⟩⟩

end Checkup.Pattern
