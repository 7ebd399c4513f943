import Checkup.Dependency.Check
import Checkup.Proofs.Text.Mention

/-!
# Words as runs of characters

The runs of a class of characters are the stretches of a text that hold only such characters and end on both sides at
another character or at an end of the text (`mem_runs_iff`). A text mentions a word of the class if and only if the
word is one of the runs (`mentionsWord_iff_mem_runs`), also where occurrences of the word overlap: of two that overlap
neither is a run. Identifiers and the words of command lines are two such classes (`mentions_runs`).
-/

namespace Checkup.Text

variable {inWord : Char → Bool} {t word : Text}

/-- The runs of characters of a class, in order: the pieces between the other characters, as far as they hold
something. -/
def runs (inWord : Char → Bool) (t : Text) : List Text :=
  (split (fun c => !inWord c) t).filter fun piece => !piece.isEmpty

theorem any_eq_false_iff {x? : Option Char} : x?.any inWord = false ↔ ∀ x ∈ x?, (!inWord x) = true := by
  cases x? <;> simp

/-- A run holds characters of the class only, and neither the character before it nor the one behind it is of the
class. -/
theorem mem_runs_iff : word ∈ runs inWord t ↔ word ≠ [] ∧ (∀ x ∈ word, inWord x = true) ∧
    ∃ before behind, t = before ++ (word ++ behind) ∧ before.getLast?.any inWord = false ∧
      behind.head?.any inWord = false := by
  have hne : (!word.isEmpty) = true ↔ word ≠ [] := by simp
  rw [runs, List.mem_filter, mem_split, hne, IsPiece]
  simp only [any_eq_false_iff, Bool.not_eq_false']
  constructor
  · rintro ⟨⟨before, behind, ht, hword, hbefore, hbehind⟩, hne⟩
    exact ⟨hne, hword, before, behind, ht, hbefore, hbehind⟩
  · rintro ⟨hne, hword, before, behind, ht, hbefore, hbehind⟩
    exact ⟨⟨before, behind, ht, hword, hbefore, hbehind⟩, hne⟩

/-- A text mentions the words of a class that are runs in it. -/
theorem mentionsWord_iff_mem_runs (hne : word ≠ []) (hword : ∀ x ∈ word, inWord x = true) :
    mentionsWord inWord t word = true ↔ word ∈ runs inWord t := by
  rw [mentionsWord_iff hne hword, mem_runs_iff, and_iff_right hne, and_iff_right hword]
  simp only [NamesBehind, Option.or_none]

/-- **A text mentions the identifiers, and a script the words, that are among its runs.** -/
theorem mentions_runs :
    (∀ t name : Text, name ≠ [] → (∀ c ∈ name, c.isIdent = true) →
      (mentions t name = true ↔ name ∈ runs Char.isIdent t)) ∧
    ∀ script package : Text, package ≠ [] → (∀ c ∈ package, isCommandWord c = true) →
      (scriptMentions script package = true ↔ package ∈ runs isCommandWord script) := by
  constructor
  · intro t name hne hname
    have hempty : name.isEmpty = false := by simpa using hne
    rw [mentions, hempty, Bool.not_false, Bool.true_and]
    exact mentionsWord_iff_mem_runs hne hname
  · intro script package hne hpackage
    exact mentionsWord_iff_mem_runs hne hpackage

/-- Names that overlap themselves: `a$a` within `a$a$a`, and `x-x` within `x-x-x` and by itself. -/
theorem mentions_runs_overlapping :
    (mentions "a$a$a + b".toList "a$a".toList = true ↔ "a$a".toList ∈ runs Char.isIdent "a$a$a + b".toList) ∧
      "a$a".toList ∉ runs Char.isIdent "a$a$a + b".toList ∧
      (scriptMentions "x-x-x && x-x".toList "x-x".toList = true ↔
        "x-x".toList ∈ runs isCommandWord "x-x-x && x-x".toList) ∧
      "x-x".toList ∈ runs isCommandWord "x-x-x && x-x".toList :=
  ⟨mentions_runs.1 _ _ (by decide) (by decide), by decide, mentions_runs.2 _ _ (by decide) (by decide), by decide⟩

end Checkup.Text
