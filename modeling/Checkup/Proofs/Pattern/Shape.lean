import Checkup.Proofs.Pattern.Takes

/-!
# What the shape of a pattern says about its matches

Tests of patterns that look at their classes on a few characters only, so that they can be computed, and what they say
about the texts that a pattern takes.

* `opens`: the text is not empty and starts with none of the given characters (`opens_takes`).
* `within`: the text holds none of them (`within_takes`).
* `inks`: the text holds a character that is no blank (`inks_takes`).
* `EndsWith`: the text ends with the given character (`endsWith_takes`).
* `literal_takes`, `seqAll_takes`: a literal takes itself, and patterns in a row take parts of what they take together.
* `groupless`: there is no group (`groupless_takes`).
* `anchorless`: what is around the text makes no difference (`anchorless_takes`).
* `eachGroup`: a test of what stands in the groups of one number (`Match.Of.group?`).
-/

namespace Checkup

/-- The code points of the blanks. -/
def blankCodes : List Nat :=
  [9, 10, 11, 12, 13, 32, 0x85, 0xA0, 0x1680, 0x2000, 0x2001, 0x2002, 0x2003, 0x2004, 0x2005, 0x2006, 0x2007, 0x2008,
    0x2009, 0x200A, 0x2028, 0x2029, 0x202F, 0x205F, 0x3000]

theorem toNat_mem_blankCodes {c : Char} (h : c.isBlank = true) : c.toNat ∈ blankCodes := by
  simp only [Char.isBlank, Bool.or_eq_true, Bool.and_eq_true, decide_eq_true_eq, beq_iff_eq] at h
  simp only [blankCodes, List.mem_cons, List.not_mem_nil, or_false]
  omega

/-- A character of a class without blanks is none. -/
theorem not_isBlank_of {p : Char → Bool} (hp : (blankCodes.all fun n => !p (Char.ofNat n)) = true) {c : Char}
    (hc : p c = true) : c.isBlank = false := by
  refine Bool.eq_false_iff.mpr fun hb => ?_
  have := List.all_eq_true.mp hp _ (toNat_mem_blankCodes hb)
  simp [Char.ofNat_toNat, hc] at this

namespace Pattern

variable {s : List Char} {p : Pattern} {pre w post : Text} {g g' : Marks}

/-- Whether none of the characters is in the class. -/
def shuns (s : List Char) (p : Char → Bool) : Bool := s.all fun c => !p c

theorem not_mem_of_shuns {p : Char → Bool} {x : Char} (h : shuns s p = true) (hx : p x = true) : x ∉ s := by
  intro hs
  have := List.all_eq_true.mp h x hs
  simp [hx] at this

/-! ## The first character -/

/-- Whether the texts of the pattern start with none of the characters, as far as they are not empty. -/
def mayOpen (s : List Char) : Pattern → Bool
  | one p | many p | few p => shuns s p
  | seq a b | alt a b => a.mayOpen s && b.mayOpen s
  | opt a | group _ a => a.mayOpen s
  | _ => true

/-- Whether the texts of the pattern are not empty and start with none of the characters. -/
def opens (s : List Char) : Pattern → Bool
  | one p => shuns s p
  | seq a b => a.opens s || (a.mayOpen s && b.opens s)
  | alt a b => a.opens s && b.opens s
  | group _ a => a.opens s
  | _ => false

theorem mayOpen_takes (hp : p.mayOpen s = true) (h : p.Takes pre w post g g') : ∀ x ∈ w.head?, x ∉ s := by
  have class_head {p : Char → Bool} {w : Text} (hp : shuns s p = true) (hw : ∀ x ∈ w, p x = true) :
      ∀ x ∈ w.head?, x ∉ s :=
    fun x hx => not_mem_of_shuns hp (hw x (List.mem_of_mem_head? hx))
  induction p generalizing pre w post g g' with
  | one p =>
    obtain ⟨⟨x, rfl, hx⟩, _⟩ := h
    exact class_head hp (by simpa using hx)
  | many p => exact class_head hp h.1
  | few p => exact class_head hp h.1
  | seq a b iha ihb =>
    simp only [mayOpen, Bool.and_eq_true] at hp
    obtain ⟨u, v, g₁, rfl, hu, hv⟩ := h
    cases u with
    | nil => exact ihb hp.2 hv
    | cons x u => simpa using iha hp.1 hu
  | alt a b iha ihb =>
    simp only [mayOpen, Bool.and_eq_true] at hp
    rcases h with h | h
    · exact iha hp.1 h
    · exact ihb hp.2 h
  | opt a ih =>
    rcases h with h | ⟨rfl, _⟩
    · exact ih hp h
    · simp
  | group n a ih =>
    obtain ⟨g₁, h, _⟩ := h
    exact ih hp h
  | nothing | wordBoundary | lineStart | textStart | textEnd => simp [h.1]

theorem opens_takes (hp : p.opens s = true) (h : p.Takes pre w post g g') : ∃ x w', w = x :: w' ∧ x ∉ s := by
  induction p generalizing pre w post g g' with
  | one p =>
    obtain ⟨⟨x, rfl, hx⟩, _⟩ := h
    exact ⟨x, [], rfl, not_mem_of_shuns hp hx⟩
  | seq a b iha ihb =>
    obtain ⟨u, v, g₁, rfl, hu, hv⟩ := h
    simp only [opens, Bool.or_eq_true, Bool.and_eq_true] at hp
    rcases hp with hp | ⟨hpa, hpb⟩
    · obtain ⟨x, u, rfl, hx⟩ := iha hp hu
      exact ⟨x, u ++ v, rfl, hx⟩
    · cases u with
      | nil => exact ihb hpb hv
      | cons x u => exact ⟨x, u ++ v, rfl, mayOpen_takes hpa hu x (by simp)⟩
  | alt a b iha ihb =>
    simp only [opens, Bool.and_eq_true] at hp
    rcases h with h | h
    · exact iha hp.1 h
    · exact ihb hp.2 h
  | group n a ih =>
    obtain ⟨g₁, h, _⟩ := h
    exact ih hp h
  | _ => cases hp

/-! ## All characters -/

/-- Whether the texts of the pattern hold none of the characters. -/
def within (s : List Char) : Pattern → Bool
  | one p | many p | few p => shuns s p
  | seq a b | alt a b => a.within s && b.within s
  | opt a | group _ a => a.within s
  | _ => true

theorem within_takes (hp : p.within s = true) (h : p.Takes pre w post g g') : ∀ x ∈ w, x ∉ s := by
  induction p generalizing pre w post g g' with
  | one p =>
    obtain ⟨⟨x, rfl, hx⟩, _⟩ := h
    simpa using not_mem_of_shuns hp hx
  | many p => exact fun x hx => not_mem_of_shuns hp (h.1 x hx)
  | few p => exact fun x hx => not_mem_of_shuns hp (h.1 x hx)
  | seq a b iha ihb =>
    simp only [within, Bool.and_eq_true] at hp
    obtain ⟨u, v, g₁, rfl, hu, hv⟩ := h
    intro x hx
    rcases List.mem_append.mp hx with hx | hx
    · exact iha hp.1 hu x hx
    · exact ihb hp.2 hv x hx
  | alt a b iha ihb =>
    simp only [within, Bool.and_eq_true] at hp
    rcases h with h | h
    · exact iha hp.1 h
    · exact ihb hp.2 h
  | opt a ih =>
    rcases h with h | ⟨rfl, _⟩
    · exact ih hp h
    · simp
  | group n a ih =>
    obtain ⟨g₁, h, _⟩ := h
    exact ih hp h
  | nothing | wordBoundary | lineStart | textStart | textEnd => simp [h.1]

/-- Whether each text of the pattern holds a character that is no blank. -/
def inks : Pattern → Bool
  | one p => blankCodes.all fun n => !p (Char.ofNat n)
  | seq a b => a.inks || b.inks
  | alt a b => a.inks && b.inks
  | group _ a => a.inks
  | _ => false

theorem inks_takes (hp : p.inks = true) (h : p.Takes pre w post g g') : ∃ x ∈ w, x.isBlank = false := by
  induction p generalizing pre w post g g' with
  | one p =>
    obtain ⟨⟨x, rfl, hx⟩, _⟩ := h
    exact ⟨x, List.mem_singleton_self x, not_isBlank_of hp hx⟩
  | seq a b iha ihb =>
    obtain ⟨u, v, g₁, rfl, hu, hv⟩ := h
    simp only [inks, Bool.or_eq_true] at hp
    rcases hp with hp | hp
    · obtain ⟨x, hx, hb⟩ := iha hp hu
      exact ⟨x, List.mem_append_left _ hx, hb⟩
    · obtain ⟨x, hx, hb⟩ := ihb hp hv
      exact ⟨x, List.mem_append_right _ hx, hb⟩
  | alt a b iha ihb =>
    simp only [inks, Bool.and_eq_true] at hp
    rcases h with h | h
    · exact iha hp.1 h
    · exact ihb hp.2 h
  | group n a ih =>
    obtain ⟨g₁, h, _⟩ := h
    exact ih hp h
  | _ => cases hp

/-! ## The last character -/

/-- Whether each text of the pattern ends with the character. -/
def EndsWith (c : Char) : Pattern → Prop
  | one p => ∀ x, p x = true → x = c
  | seq _ b => b.EndsWith c
  | alt a b => a.EndsWith c ∧ b.EndsWith c
  | group _ a => a.EndsWith c
  | _ => False

theorem endsWith_takes {c : Char} (hp : p.EndsWith c) (h : p.Takes pre w post g g') : ∃ w', w = w' ++ [c] := by
  induction p generalizing pre w post g g' with
  | one p =>
    obtain ⟨⟨x, rfl, hx⟩, _⟩ := h
    exact ⟨[], by rw [hp x hx]; rfl⟩
  | seq a b iha ihb =>
    obtain ⟨u, v, g₁, rfl, hu, hv⟩ := h
    obtain ⟨w', rfl⟩ := ihb hp hv
    exact ⟨u ++ w', (List.append_assoc u w' [c]).symm⟩
  | alt a b iha ihb =>
    rcases h with h | h
    · exact iha hp.1 h
    · exact ihb hp.2 h
  | group n a ih =>
    obtain ⟨g₁, h, _⟩ := h
    exact ih hp h
  | _ => cases hp

/-! ## Parts -/

theorem literal_takes {t : Text} (h : (literal t).Takes pre w post g g') : w = t := by
  induction t using literal.induct generalizing pre w g with
  | case1 => exact h.1
  | case2 c =>
    obtain ⟨⟨x, rfl, hx⟩, _⟩ := h
    rw [eq_of_beq hx]
  | case3 c t hne ih =>
    rw [literal.eq_3 c t hne] at h
    obtain ⟨u, v, g₁, rfl, ⟨⟨x, rfl, hx⟩, _⟩, hv⟩ := h
    rw [eq_of_beq hx, ih hv]
    rfl

theorem takes_literal (t pre post : Text) (g : Marks) : (literal t).Takes pre t post g g := by
  induction t using literal.induct generalizing pre with
  | case1 => exact ⟨rfl, rfl⟩
  | case2 c => exact ⟨⟨c, rfl, beq_self_eq_true c⟩, rfl⟩
  | case3 c t hne ih =>
    rw [literal.eq_3 c t hne]
    exact ⟨[c], t, g, rfl, ⟨⟨c, rfl, beq_self_eq_true c⟩, rfl⟩, ih (pre ++ [c])⟩

/-- Each of several patterns in a row takes a part of what they take. -/
theorem seqAll_takes {ps : List Pattern} (h : (seqAll ps).Takes pre w post g g') {p : Pattern} (hp : p ∈ ps) :
    ∃ pre' u post' g₁ g₂, u <:+: w ∧ p.Takes pre' u post' g₁ g₂ := by
  induction ps using seqAll.induct generalizing pre w g with
  | case1 => cases hp
  | case2 q =>
    rw [List.mem_singleton.mp hp]
    exact ⟨pre, w, post, g, g', List.infix_refl w, h⟩
  | case3 q ps hne ih =>
    rw [seqAll.eq_3 q ps hne] at h
    obtain ⟨u, v, g₁, rfl, hu, hv⟩ := h
    rcases List.mem_cons.mp hp with rfl | hp
    · exact ⟨pre, u, v ++ post, g, g₁, (List.prefix_append u v).isInfix, hu⟩
    · obtain ⟨pre', x, post', g₂, g₃, hx, htakes⟩ := ih hv hp
      exact ⟨pre', x, post', g₂, g₃, hx.trans (List.suffix_append u v).isInfix, htakes⟩

/-! ## Groups -/

/-- Whether there is no group in the pattern. -/
def groupless : Pattern → Bool
  | seq a b | alt a b => a.groupless && b.groupless
  | opt a => a.groupless
  | group _ _ => false
  | _ => true

/-- A match adds no marks if there is no group. -/
theorem groupless_takes (hp : p.groupless = true) (h : p.Takes pre w post g g') : g' = g := by
  induction p generalizing pre w post g g' with
  | seq a b iha ihb =>
    simp only [groupless, Bool.and_eq_true] at hp
    obtain ⟨u, v, g₁, rfl, hu, hv⟩ := h
    rw [ihb hp.2 hv, iha hp.1 hu]
  | alt a b iha ihb =>
    simp only [groupless, Bool.and_eq_true] at hp
    rcases h with h | h
    · exact iha hp.1 h
    · exact ihb hp.2 h
  | opt a ih =>
    rcases h with h | ⟨_, h⟩
    · exact ih hp h
    · exact h
  | group n a ih => cases hp
  | one p | many p | few p | nothing => exact h.2
  | wordBoundary | lineStart | textStart | textEnd => exact h.2.1

/-- Whether the pattern does not look at what is around its texts, and has no group. -/
def anchorless : Pattern → Bool
  | seq a b | alt a b => a.anchorless && b.anchorless
  | opt a => a.anchorless
  | group _ _ | wordBoundary | lineStart | textStart | textEnd => false
  | _ => true

theorem anchorless_takes (hp : p.anchorless = true) (h : p.Takes pre w post g g') (pre' post' : Text) :
    p.Takes pre' w post' g g' := by
  induction p generalizing pre w post g g' pre' post' with
  | seq a b iha ihb =>
    simp only [anchorless, Bool.and_eq_true] at hp
    obtain ⟨u, v, g₁, rfl, hu, hv⟩ := h
    exact ⟨u, v, g₁, rfl, iha hp.1 hu pre' (v ++ post'), ihb hp.2 hv (pre' ++ u) post'⟩
  | alt a b iha ihb =>
    simp only [anchorless, Bool.and_eq_true] at hp
    exact h.imp (fun h => iha hp.1 h pre' post') fun h => ihb hp.2 h pre' post'
  | opt a ih => exact h.imp_left fun h => ih hp h pre' post'
  | group n a ih => cases hp
  | one p | many p | few p | nothing => exact h
  | wordBoundary | lineStart | textStart | textEnd => cases hp

/-- Whether the test holds of what stands in each group with the number. -/
def eachGroup (n : Nat) (test : Pattern → Bool) : Pattern → Bool
  | seq a b | alt a b => a.eachGroup n test && b.eachGroup n test
  | opt a => a.eachGroup n test
  | group m a => (m != n || test a) && a.eachGroup n test
  | _ => true

/-- Whether the places of a mark are those of a text of some pattern that passes the test, in the text `t`. -/
def Marked (test : Pattern → Bool) (t : Text) (a b : Cursor) : Prop :=
  ∃ q pre w post g g', test q = true ∧ q.Takes pre w post g g' ∧ t = pre ++ (w ++ post) ∧
    a = .behind pre (w ++ post) ∧ b = .behind (pre ++ w) post

/-- The marks that a match adds are those of its groups. -/
theorem eachGroup_takes {n : Nat} {test : Pattern → Bool} {t : Text} (hp : p.eachGroup n test = true)
    (h : p.Takes pre w post g g') (ht : t = pre ++ (w ++ post)) (hg : ∀ a b, (n, a, b) ∈ g → Marked test t a b) :
    ∀ a b, (n, a, b) ∈ g' → Marked test t a b := by
  induction p generalizing pre w post g g' with
  | seq a b iha ihb =>
    simp only [eachGroup, Bool.and_eq_true] at hp
    obtain ⟨u, v, g₁, rfl, hu, hv⟩ := h
    refine ihb hp.2 hv (by simpa using ht) (iha hp.1 hu (by simpa using ht) hg)
  | alt a b iha ihb =>
    simp only [eachGroup, Bool.and_eq_true] at hp
    rcases h with h | h
    · exact iha hp.1 h ht hg
    · exact ihb hp.2 h ht hg
  | opt a ih =>
    rcases h with h | ⟨_, rfl⟩
    · exact ih hp h ht hg
    · exact hg
  | group m a ih =>
    simp only [eachGroup, Bool.and_eq_true, Bool.or_eq_true, bne_iff_ne] at hp
    obtain ⟨g₁, h, rfl⟩ := h
    intro x y hxy
    rcases List.mem_cons.mp hxy with hxy | hxy
    · simp only [Prod.mk.injEq] at hxy
      obtain ⟨rfl, rfl, rfl⟩ := hxy
      exact ⟨a, pre, w, post, g, g₁, hp.1.resolve_left fun h => h rfl, h, ht, rfl, rfl⟩
    · exact ih hp.2 h ht hg x y hxy
  | one p | many p | few p => rw [h.2]; exact hg
  | nothing => rw [h.2]; exact hg
  | wordBoundary | lineStart | textStart | textEnd => rw [h.2.1]; exact hg

theorem exists_mark {n : Nat} {c : Capture} (h : (captures g).lookup n = some c) :
    ∃ a b, (n, a, b) ∈ g ∧ c = .between a b := by
  obtain ⟨l₁, l₂, hl, _⟩ := List.lookup_eq_some_iff.mp h
  have hmem : (n, c) ∈ captures g := by
    rw [show captures g = _ from hl]
    simp
  simp only [captures, List.mem_map, Prod.mk.injEq, Prod.exists] at hmem
  obtain ⟨_, a, b, hab, rfl, rfl⟩ := hmem
  exact ⟨a, b, hab, rfl⟩

theorem lookup_captures_eq_none {n : Nat} (hp : p.eachGroup n (fun _ => false) = true)
    (h : p.Takes pre w post [] g) : (captures g).lookup n = none := by
  refine Option.eq_none_iff_forall_ne_some.mpr fun c hc => ?_
  obtain ⟨a, b, hmark, _⟩ := exists_mark hc
  obtain ⟨q, _, _, _, _, _, hq, _⟩ := eachGroup_takes hp h rfl (fun _ _ h => absurd h List.not_mem_nil) a b hmark
  cases hq

end Pattern

/-- What a group of a match took is a text of a pattern that stands in such a group. -/
theorem Match.Of.group? {p : Pattern} {t : Text} {m : Match} {pre w post : Text} {g : Pattern.Marks}
    (h : m.Of p t pre w post g) (test : Pattern → Bool) {n : Nat} {c : Capture} (hc : m.group? n = some c)
    (hp : p.eachGroup n test = true) :
    ∃ q pre' w' post' g₁ g₂, test q = true ∧ q.Takes pre' w' post' g₁ g₂ ∧ t = pre' ++ (w' ++ post') ∧
      c = ⟨Text.byteSize pre', w'⟩ := by
  rw [h.eq] at hc
  obtain ⟨a, b, hab, rfl⟩ := Pattern.exists_mark hc
  obtain ⟨q, pre', w', post', g₁, g₂, hq, ht, htext, rfl, rfl⟩ :=
    Pattern.eachGroup_takes hp h.takes h.text_eq (fun _ _ h => by cases h) a b hab
  exact ⟨q, pre', w', post', g₁, g₂, hq, ht, htext, Capture.between_behind pre' w' post'⟩

/-- What a group of a match took stands in the text. -/
theorem Match.Of.group_infix {p : Pattern} {t : Text} {m : Match} {pre w post : Text} {g : Pattern.Marks}
    (h : m.Of p t pre w post g) {n : Nat} {c : Capture} (hc : m.group? n = some c)
    (hp : p.eachGroup n (fun _ => true) = true) : c.text <:+: t := by
  obtain ⟨_, pre', w', post', _, _, _, _, rfl, rfl⟩ := h.group? _ hc hp
  exact ⟨pre', post', List.append_assoc _ _ _⟩

/-- A group that takes something and none of the given characters. -/
theorem Match.Of.group_text {p : Pattern} {t : Text} {m : Match} {pre w post : Text} {g : Pattern.Marks}
    (h : m.Of p t pre w post g) {s : List Char} {n : Nat} {c : Capture} (hc : m.group? n = some c)
    (hp : p.eachGroup n (fun q => q.opens [] && q.within s) = true) : c.text ≠ [] ∧ ∀ x ∈ c.text, x ∉ s := by
  obtain ⟨q, pre', w', post', g₁, g₂, hq, hw, _, rfl⟩ := h.group? _ hc hp
  obtain ⟨hopens, hwithin⟩ := Bool.and_eq_true_iff.mp hq
  obtain ⟨x, u, rfl, _⟩ := Pattern.opens_takes hopens hw
  exact ⟨List.cons_ne_nil x u, Pattern.within_takes hwithin hw⟩

end Checkup
