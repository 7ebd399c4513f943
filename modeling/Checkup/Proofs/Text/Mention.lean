import Checkup.Proofs.Text.Occurrence
import Checkup.Text.Identifier

/-!
# Identifiers that a text names

`Text.mentionsWord` goes on behind each occurrence that it has looked at. Nothing is lost by that: where a word has no
character of its class at its sides, no other occurrence of it reaches in.

* `mentionsFrom_iff`: this, for the words of any class.
* `Names`: the identifier stands in the text as a whole word.
* `mentions_iff`: the text mentions the identifiers that it names.
-/

namespace Checkup.Text

variable {inWord : Char → Bool} {t word : Text} {prev : Option Char} {c : Char} {skip : Nat}

/-- Whether the word stands in the text with no identifier character at either side. -/
def Names (t word : Text) : Prop :=
  ∃ pre post, t = pre ++ (word ++ post) ∧ pre.getLast?.any Char.isIdent = false ∧ post.head?.any Char.isIdent = false

/-- The same of the words of any class, in a text behind a character. -/
def NamesBehind (inWord : Char → Bool) (prev : Option Char) (t word : Text) : Prop :=
  ∃ pre post, t = pre ++ (word ++ post) ∧ (pre.getLast?.or prev).any inWord = false ∧ post.head?.any inWord = false

theorem namesBehind_none : NamesBehind Char.isIdent none t word ↔ Names t word := by simp [NamesBehind, Names]

theorem getLast?_cons_or (c : Char) (t : Text) (prev : Option Char) :
    (c :: t).getLast?.or prev = t.getLast?.or (some c) := by
  rw [List.getLast?_cons]
  cases t.getLast? <;> rfl

/-- A word is named at the first character or behind it. -/
theorem namesBehind_cons : NamesBehind inWord prev (c :: t) word ↔
    (∃ post, c :: t = word ++ post ∧ prev.any inWord = false ∧ post.head?.any inWord = false) ∨
      NamesBehind inWord (some c) t word := by
  constructor
  · rintro ⟨pre, post, ht, hpre, hpost⟩
    cases pre with
    | nil => exact Or.inl ⟨post, ht, by simpa using hpre, hpost⟩
    | cons d pre =>
      obtain ⟨rfl, rfl⟩ := List.cons.inj ht
      exact Or.inr ⟨pre, post, rfl, getLast?_cons_or c pre prev ▸ hpre, hpost⟩
  · rintro (⟨post, ht, hprev, hpost⟩ | ⟨pre, post, rfl, hpre, hpost⟩)
    · exact ⟨[], post, ht, by simpa using hprev, hpost⟩
    · exact ⟨c :: pre, post, rfl, (getLast?_cons_or c pre prev).symm ▸ hpre, hpost⟩

/-- While the search skips, it is inside a word: behind a character of the class and before others. -/
theorem mentionsFrom_iff (hne : word ≠ []) (hword : ∀ x ∈ word, inWord x = true)
    (hprev : 0 < skip → prev.any inWord = true) (hskip : ∀ x ∈ t.take skip, inWord x = true) :
    mentionsFrom inWord word prev skip t = true ↔ NamesBehind inWord prev t word := by
  induction t generalizing prev skip with
  | nil =>
    have hempty : word.isEmpty = false := by simpa using hne
    simp only [mentionsFrom, hempty, Bool.false_and, Bool.false_eq_true, false_iff]
    rintro ⟨pre, post, ht, _⟩
    simp_all
  | cons c t ih =>
    rw [mentionsFrom, namesBehind_cons]
    cases skip with
    | succ skip =>
      rw [if_neg (Nat.succ_ne_zero skip), Nat.add_sub_cancel,
        ih (fun _ => by simpa using hskip c) fun x hx => hskip x (by simp [hx])]
      simp [hprev]
    | zero =>
      rw [if_pos rfl]
      cases hafter : after? word (c :: t) with
      | none =>
        have hno : ∀ post, c :: t ≠ word ++ post := fun post ht => by
          rw [after?_eq_some_iff.mpr ht] at hafter
          cases hafter
        rw [ih (fun h => absurd h (Nat.lt_irrefl 0)) (by simp)]
        simp [hno]
      | some rest =>
        have ht := after?_eq_some_iff.mp hafter
        obtain ⟨w, rfl⟩ : ∃ w, word = c :: w := by
          cases word with
          | nil => exact absurd rfl hne
          | cons d w => exact ⟨w, by rw [(List.cons.inj ht).1]⟩
        obtain ⟨_, rfl⟩ := List.cons.inj ht
        rw [Bool.or_eq_true, ih (fun _ => by simpa using hword c) fun x hx => hword x (by simp_all)]
        simp

theorem mentionsWord_iff (hne : word ≠ []) (hword : ∀ x ∈ word, inWord x = true) :
    mentionsWord inWord t word = true ↔ NamesBehind inWord none t word :=
  mentionsFrom_iff hne hword (fun h => absurd h (Nat.lt_irrefl 0)) (by simp)

theorem ne_nil_of_isIdentifier (h : isIdentifier word = true) : word ≠ [] := by
  rintro rfl
  cases h

theorem isIdent_of_isIdentStart {c : Char} (hc : c.isIdentStart = true) : c.isIdent = true := by
  simp only [Char.isIdentStart, Char.isIdent, Char.isAlphanum, Bool.or_eq_true] at hc ⊢
  rcases hc with (hc | hc) | hc <;> simp [hc]

theorem isIdent_of_mem (h : isIdentifier word = true) : ∀ x ∈ word, x.isIdent = true := by
  cases word with
  | nil => cases h
  | cons c w =>
    obtain ⟨hc, hw⟩ := Bool.and_eq_true_iff.mp h
    exact List.forall_mem_cons.mpr ⟨isIdent_of_isIdentStart hc, List.all_eq_true.mp hw⟩

/-- **A text mentions the identifiers that it names.** -/
theorem mentions_iff (h : isIdentifier word = true) : mentions t word = true ↔ Names t word := by
  have hne := ne_nil_of_isIdentifier h
  have hempty : word.isEmpty = false := by simpa using hne
  rw [mentions, hempty, Bool.not_false, Bool.true_and, mentionsWord_iff hne (isIdent_of_mem h), namesBehind_none]

end Checkup.Text
