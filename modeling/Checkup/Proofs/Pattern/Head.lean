import Mathlib.Data.List.Basic
import Checkup.Proofs.Pattern.Name
import Checkup.Proofs.Pattern.Search

/-!
# Words with a bracket behind them

Some patterns are a word, one of a few, that starts where a word starts, with blanks and a bracket behind it. Their
matches are the places where such words stand (`mem_findAll_head_iff`). Such a place does not depend on what is around
it, so those of a part of a text are those of the text that lie in it (`isHead_part_iff`).
-/

namespace Checkup.Pattern

open Cursor (behind)

variable {k : Pattern} {words : List Text} {mark : Text → Text → Text → Marks → Marks} {c : Char}
  {word gap rest pre w post t : Text} {g g' : Marks} {m : Match} {start stop : Nat}

/-! ## Words -/

theorem literal_takes_iff : (literal t).Takes pre w post g g' ↔ w = t ∧ g' = g := by
  constructor
  · exact fun h => ⟨literal_takes h, groupless_takes (groupless_literal t) h⟩
  · rintro ⟨rfl, rfl⟩
    exact takes_literal _ _ _ _

theorem anyOf_takes_iff {ts : List Text} : (anyOf (ts.map literal)).Takes pre w post g g' ↔ w ∈ ts ∧ g' = g := by
  induction ts with
  | nil => simp [anyOf, Takes]
  | cons t ts ih =>
    cases ts with
    | nil => rw [List.map_cons, List.map_nil, anyOf, literal_takes_iff, List.mem_singleton]
    | cons u ts =>
      have hcons : (anyOf ((t :: u :: ts).map literal)).Takes pre w post g g' ↔
          (literal t).Takes pre w post g g' ∨ (anyOf ((u :: ts).map literal)).Takes pre w post g g' := Iff.rfl
      rw [hcons, ih, literal_takes_iff, List.mem_cons (a := w) (b := t), or_and_right]

/-- A blank is no character of a word. -/
theorem not_isWord_of_isBlank {x : Char} (hx : x.isBlank = true) : x.isWord = false := by
  refine Bool.eq_false_iff.mpr fun hword => ?_
  rw [not_isBlank_of (p := Char.isWord) (by decide +kernel) hword] at hx
  cases hx

/-- Whether the pattern takes just the given words, and what it adds to the marks. -/
structure TakesWords (k : Pattern) (words : List Text) (mark : Text → Text → Text → Marks → Marks) : Prop where
  takes_iff : ∀ pre w post g g', k.Takes pre w post g g' ↔ w ∈ words ∧ g' = mark pre w post g
  isWord : ∀ w ∈ words, w ≠ [] ∧ ∀ x ∈ w, x.isWord = true

/-- No match starts within another one if each starts where a word starts and holds no other start of a word. -/
theorem unoverlapped_of_word {q : Pattern} (h : ∀ pre w post g, q.Takes pre w post [] g →
    pre.getLast?.any Char.isWord = false ∧
    ∃ word rest, w = word ++ rest ∧ word ≠ [] ∧ (∀ x ∈ word, x.isWord = true) ∧ ∀ x ∈ rest, x.isWord = false) :
    q.Unoverlapped := by
  intro pre u v post g htakes hu hv
  refine Option.not_isSome_iff_eq_none.mp fun hsome => ?_
  obtain ⟨w, post', g', hsplit, hmatch⟩ := isSome_matchAt_iff.mp hsome
  obtain ⟨hbefore, word', rest', rfl, hne', hword', _⟩ := h _ _ _ _ hmatch
  obtain ⟨_, word, rest, hparts, _, hword, hrest⟩ := h _ _ _ _ htakes
  -- the characters on both sides of the place where the second match starts
  have hlast : (u.getLast hu).isWord = false := by
    rwa [List.getLast?_append_of_ne_nil _ hu, List.getLast?_eq_some_getLast hu, Option.any_some] at hbefore
  have hhead : (v.head hv).isWord = true := by
    have hfirst := congrArg List.head? hsplit
    rw [List.append_assoc, List.head?_append_of_ne_nil _ hv, List.head?_append_of_ne_nil _ hne',
      List.head?_eq_some_head hv, List.head?_eq_some_head hne'] at hfirst
    rw [Option.some.inj hfirst]
    exact hword' _ (List.head_mem hne')
  rcases List.append_eq_append_iff.mp hparts with ⟨a, rfl, _⟩ | ⟨a, _, rfl⟩
  · rw [hword _ (List.mem_append_left a (List.getLast_mem hu))] at hlast
    cases hlast
  · rw [hrest _ (List.mem_append_right a (List.head_mem hv))] at hhead
    cases hhead

/-! ## Words, blanks and a bracket -/

/-- One of the words where a word starts, blanks, and the bracket. -/
def head (k : Pattern) (c : Char) : Pattern := seqAll [wordBoundary, k, blanks, literal [c]]

/-- Whether one of the words stands in the text from `start` on, where a word starts, with blanks and the bracket
behind it up to `stop`. -/
def IsHead (words : List Text) (c : Char) (t : Text) (start stop : Nat) (word : Text) : Prop :=
  ∃ before gap rest, t = before ++ (word ++ (gap ++ c :: rest)) ∧ word ∈ words ∧
    before.getLast?.any Char.isWord = false ∧
    (∀ x ∈ gap, x.isBlank = true) ∧ start = Text.byteSize before ∧
    stop = Text.byteSize (before ++ (word ++ (gap ++ [c])))

theorem IsHead.lt (h : IsHead words c t start stop word) : start < stop := by
  obtain ⟨before, gap, rest, _, _, _, _, rfl, rfl⟩ := h
  exact Text.byteSize_lt_append before (by simp)

theorem head_takes_iff (hk : k.TakesWords words mark) : (head k c).Takes pre w post g g' ↔
    ∃ word gap, w = word ++ (gap ++ [c]) ∧ word ∈ words ∧ pre.getLast?.any Char.isWord = false ∧
      (∀ x ∈ gap, x.isBlank = true) ∧ g' = mark pre word (gap ++ c :: post) g := by
  have hboundary {word : Text} (hword : word ∈ words) (rest : Text) :
      (behind pre (word ++ rest)).atWordBoundary = true ↔ pre.getLast?.any Char.isWord = false := by
    obtain ⟨hne, hall⟩ := hk.isWord word hword
    obtain ⟨x, word, rfl⟩ := List.exists_cons_of_ne_nil hne
    exact atWordBoundary_before (hall x List.mem_cons_self) pre _
  constructor
  · rintro ⟨_, _, _, rfl, ⟨rfl, rfl, hstart⟩, word, _, _, rfl, hword, gap, _, _, rfl, ⟨hgap, rfl⟩, hlast⟩
    obtain ⟨rfl, rfl⟩ := literal_takes_iff.mp hlast
    obtain ⟨hmem, rfl⟩ := (hk.takes_iff ..).mp hword
    rw [List.append_assoc] at hstart
    exact ⟨word, gap, rfl, hmem, (hboundary hmem _).mp hstart, hgap, by simp⟩
  · rintro ⟨word, gap, rfl, hmem, hbefore, hgap, rfl⟩
    have hword : k.Takes (pre ++ []) word (gap ++ [c] ++ post) g (mark pre word (gap ++ c :: post) g) := by
      refine (hk.takes_iff ..).mpr ⟨hmem, ?_⟩
      rw [List.append_nil, List.append_assoc]
      rfl
    refine ⟨[], _, g, rfl, ⟨rfl, rfl, ?_⟩, word, _, _, rfl, hword, gap, [c], _, rfl, ⟨hgap, rfl⟩, takes_literal _ _ _ _⟩
    show (behind pre (word ++ (gap ++ [c]) ++ post)).atWordBoundary = true
    rw [List.append_assoc]
    exact (hboundary hmem _).mpr hbefore

/-- Within such a match no word starts. -/
theorem head_unoverlapped (hk : k.TakesWords words mark) (hc : c.isWord = false) : (head k c).Unoverlapped := by
  refine unoverlapped_of_word fun pre w post g htakes => ?_
  obtain ⟨word, gap, rfl, hmem, hbefore, hgap, _⟩ := (head_takes_iff hk).mp htakes
  obtain ⟨hne, hall⟩ := hk.isWord word hmem
  refine ⟨hbefore, word, gap ++ [c], rfl, hne, hall, ?_⟩
  intro x hx
  rcases List.mem_append.mp hx with hx | hx
  · exact not_isWord_of_isBlank (hgap x hx)
  · rwa [List.mem_singleton.mp hx]

/-- There is one way to read a word with blanks and the bracket. -/
theorem head_inj {word' gap' rest' : Text} (hc : c.isWord = false) (hblank : c.isBlank = false)
    (hword : ∀ x ∈ word, x.isWord = true) (hword' : ∀ x ∈ word', x.isWord = true) (hgap : ∀ x ∈ gap, x.isBlank = true)
    (hgap' : ∀ x ∈ gap', x.isBlank = true) (h : word ++ (gap ++ c :: rest) = word' ++ (gap' ++ c :: rest')) :
    word = word' ∧ gap = gap' ∧ rest = rest' := by
  have hbehind {gap rest : Text} (hgap : ∀ x ∈ gap, x.isBlank = true) :
      ∀ x ∈ (gap ++ c :: rest).head?, x.isWord = false := by
    intro x hx
    cases gap with
    | nil =>
      cases hx
      exact hc
    | cons y gap =>
      cases hx
      exact not_isWord_of_isBlank (hgap x List.mem_cons_self)
  obtain ⟨rfl, hrest⟩ := Text.append_inj_of_class hword hword' (hbehind hgap) (hbehind hgap') h
  have hbracket (rest : Text) : ∀ x ∈ (c :: rest).head?, x.isBlank = false := fun x hx => by cases hx; exact hblank
  obtain ⟨rfl, hlast⟩ := Text.append_inj_of_class hgap hgap' (hbracket rest) (hbracket rest') hrest
  exact ⟨rfl, rfl, (List.cons.inj hlast).2⟩

/-- **The matches are the places where such words stand.** -/
theorem mem_findAll_head_iff (hk : k.TakesWords words mark) (hopens : (head k c).opens [] = true)
    (hc : c.isWord = false)
    (hblank : c.isBlank = false) : m ∈ (head k c).findAll t ↔
      ∃ before word gap rest, t = before ++ (word ++ (gap ++ c :: rest)) ∧ word ∈ words ∧
        before.getLast?.any Char.isWord = false ∧ (∀ x ∈ gap, x.isBlank = true) ∧
        m = ⟨⟨Text.byteSize before, word ++ (gap ++ [c])⟩, captures (mark before word (gap ++ c :: rest) [])⟩ := by
  rw [mem_findAll_iff (head_unoverlapped hk hc) hopens]
  constructor
  · rintro ⟨before, rest, rfl, hm⟩
    obtain ⟨w, post, g, hof⟩ := matchAt_of hm
    obtain ⟨word, gap, rfl, hmem, hbefore, hgap, rfl⟩ := (head_takes_iff hk).mp hof.takes
    exact ⟨before, word, gap, post, by rw [hof.text_eq]; simp, hmem, hbefore, hgap, hof.eq⟩
  · rintro ⟨before, word, gap, rest, rfl, hmem, hbefore, hgap, rfl⟩
    have htakes : (head k c).Takes before (word ++ (gap ++ [c])) rest [] (mark before word (gap ++ c :: rest) []) :=
      (head_takes_iff hk).mpr ⟨word, gap, rfl, hmem, hbefore, hgap, rfl⟩
    have hsome : ((head k c).matchAt (behind before (word ++ (gap ++ c :: rest)))).isSome :=
      isSome_matchAt_iff.mpr ⟨_, rest, _, by simp, htakes⟩
    obtain ⟨m, hm⟩ := Option.isSome_iff_exists.mp hsome
    obtain ⟨w, post, g, hof⟩ := matchAt_of hm
    -- the match can only be that of the word
    obtain ⟨word', gap', rfl, hmem', _, hgap', rfl⟩ := (head_takes_iff hk).mp hof.takes
    obtain ⟨rfl, rfl, rfl⟩ := head_inj hc hblank (hk.isWord _ hmem).2 (hk.isWord _ hmem').2 hgap hgap'
      (by simpa using List.append_cancel_left hof.text_eq)
    exact ⟨before, _, rfl, hof.eq ▸ hm⟩

/-! ## Parts of a text -/

/-- Where such a word stands in a part of a text it stands in the text, and conversely, if it does not reach out of the
part. -/
theorem isHead_part_iff {front body : Text} (hfront : front.getLast?.any Char.isWord = false) (post : Text) :
    IsHead words c body start stop word ↔
      IsHead words c (front ++ (body ++ post)) (Text.byteSize front + start) (Text.byteSize front + stop) word ∧
        stop ≤ Text.byteSize body := by
  have hlast (before : Text) : (front ++ before).getLast?.any Char.isWord = before.getLast?.any Char.isWord := by
    cases before with
    | nil => rw [List.append_nil, hfront]; rfl
    | cons x before => rw [List.getLast?_append_of_ne_nil _ (List.cons_ne_nil x before)]
  constructor
  · rintro ⟨before, gap, rest, rfl, hmem, hbefore, hgap, rfl, rfl⟩
    refine ⟨⟨front ++ before, gap, rest ++ post, by simp, hmem, (hlast before).trans hbefore, hgap, ?_, ?_⟩, ?_⟩
    · rw [Text.byteSize_append]
    · rw [List.append_assoc, Text.byteSize_append front]
    · simp only [Text.byteSize_append, Text.byteSize_cons, Text.byteSize_nil]
      omega
  · rintro ⟨⟨before', gap, rest', htext, hmem, hbefore, hgap, hstart, hstop⟩, hle⟩
    -- the word stands behind the front, and the bracket in the body
    obtain ⟨before, rfl⟩ : front <+: before' :=
      Text.prefix_of_byteSize_le ⟨_, rfl⟩ ⟨_, htext.symm⟩ (hstart ▸ Nat.le_add_right _ _)
    rw [Text.byteSize_append, Nat.add_left_cancel_iff] at hstart
    rw [List.append_assoc, Text.byteSize_append front, Nat.add_left_cancel_iff] at hstop
    rw [List.append_assoc] at htext
    have hbody := List.append_cancel_left htext
    obtain ⟨rest, rfl⟩ : before ++ (word ++ (gap ++ [c])) <+: body :=
      Text.prefix_of_byteSize_le ⟨rest', by simp [hbody]⟩ ⟨post, rfl⟩ (hstop ▸ hle)
    exact ⟨before, gap, rest, by simp, hmem, (hlast before).symm.trans hbefore, hgap, hstart, hstop⟩

end Checkup.Pattern
