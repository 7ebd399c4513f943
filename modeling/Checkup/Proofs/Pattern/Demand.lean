import Checkup.Proofs.Pattern.Shape
import Checkup.Proofs.Text.Occurrence
import Checkup.Rule.Basic

/-!
# Words that a pattern demands

A pattern demands a word if each text that it takes has the word (`Pattern.Demands`): a literal demands its parts,
patterns in a row what one of them demands, and a choice what all of its patterns do. In a text without the word there
is no match (`Demands.has_of_findAll`, `Demands.has_of_find`).
-/

namespace Checkup

variable {t u : Text} {word : String}

namespace Text

theorem has_iff : t.has word = true ↔ word.toList <:+: t := occurs_iff

theorem has_of_infix (h : u.has word = true) (hu : u <:+: t) : t.has word = true :=
  has_iff.mpr ((has_iff.mp h).trans hu)

/-- A text with a word has the parts of the word. -/
theorem has_of_has {part : String} (h : t.has word = true) (hpart : Text.has word.toList part = true) :
    t.has part = true :=
  has_of_infix hpart (has_iff.mp h)

end Text

namespace Pattern

variable {p a b : Pattern} {ps : List Pattern} {m : Match} {pre w post : Text} {g : Marks}

/-- Whether each text that the pattern takes has the word. -/
def Demands (word : String) (p : Pattern) : Prop := ∀ pre w post g g', p.Takes pre w post g g' → w.has word = true

theorem demands_lit {s : String} (h : Text.has s.toList word = true) : (lit s).Demands word := by
  intro pre w post g g' htakes
  rwa [literal_takes htakes]

theorem Demands.left (h : a.Demands word) (b : Pattern) : (seq a b).Demands word := by
  rintro pre _ post g g' ⟨u, v, g₁, rfl, hu, _⟩
  exact Text.has_of_infix (h _ _ _ _ _ hu) (List.prefix_append u v).isInfix

theorem Demands.right (a : Pattern) (h : b.Demands word) : (seq a b).Demands word := by
  rintro pre _ post g g' ⟨u, v, g₁, rfl, _, hv⟩
  exact Text.has_of_infix (h _ _ _ _ _ hv) (List.suffix_append u v).isInfix

theorem Demands.alt (ha : a.Demands word) (hb : b.Demands word) : (alt a b).Demands word := by
  rintro pre w post g g' (htakes | htakes)
  · exact ha _ _ _ _ _ htakes
  · exact hb _ _ _ _ _ htakes

theorem Demands.group (n : Nat) (h : a.Demands word) : (group n a).Demands word := by
  rintro pre w post g g' ⟨g₁, htakes, _⟩
  exact h _ _ _ _ _ htakes

theorem Demands.seqAll (h : p.Demands word) (hp : p ∈ ps) : (seqAll ps).Demands word := by
  intro pre w post g g' htakes
  obtain ⟨_, u, _, _, _, hu, hpart⟩ := seqAll_takes htakes hp
  exact Text.has_of_infix (h _ _ _ _ _ hpart) hu

theorem Demands.has_of (h : p.Demands word) (hof : m.Of p t pre w post g) : t.has word = true := by
  rw [hof.text_eq]
  exact Text.has_of_infix (h _ _ _ _ _ hof.takes) ⟨pre, post, List.append_assoc _ _ _⟩

/-- **Where there is a match there is the word.** -/
theorem Demands.has_of_findAll (h : p.Demands word) (hm : m ∈ p.findAll t) : t.has word = true := by
  obtain ⟨pre, w, post, g, hof⟩ := findAll_of hm
  exact h.has_of hof

theorem Demands.has_of_find (h : p.Demands word) (hm : p.find t = some m) : t.has word = true := by
  obtain ⟨pre, w, post, g, hof⟩ := find_of hm
  exact h.has_of hof

end Pattern

end Checkup
