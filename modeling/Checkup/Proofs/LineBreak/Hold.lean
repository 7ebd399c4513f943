import Checkup.Proofs.LineBreak.Crlf
import Checkup.Proofs.Pattern.Takes
import Checkup.Proofs.Related

/-!
# Matching before and inside of line breaks

A search in a text with carriage returns meets the places of the text without them (`Cursor.Twin`), and one more place
inside of each line break (`Cursor.Splits`). A continuation agrees at the former; what it does at the latter is its
`Hold`. `Pattern.hold` computes from the hold of what follows a pattern the hold of the pattern before it, if the
pattern cannot tell the two texts apart: it looks at each class of the pattern at the two characters of a break only.

* `hold_solid`: a pattern that is solid fails inside of breaks.
* `Hold.Fits`: two continuations agree, at the same places and inside of breaks. Choices (`Fits.or`), tests
  (`Fits.test`) and marks (`Fits.mark`) keep that.
-/

namespace Checkup

namespace Cursor

open Text (crlf)

/-- Whether `c'` is the place of `c` in the text with carriage returns. -/
def Twin (t : Text) (c c' : Cursor) : Prop :=
  ∃ pre rest, t = pre ++ rest ∧ c = behind pre rest ∧ c' = behind (crlf pre) (crlf rest)

/-- Whether `c'` is the place inside of the line break that ends at `c`. -/
def Splits (t : Text) (c c' : Cursor) : Prop :=
  ∃ pre rest, t = pre ++ '\n' :: rest ∧ c = behind (pre ++ ['\n']) rest ∧
    c' = behind (crlf pre ++ ['\r']) ('\n' :: crlf rest)

/-- Whether the place is between a carriage return and a line feed. -/
def InBreak (c' : Cursor) : Prop := ∃ pre rest, c' = behind (pre ++ ['\r']) ('\n' :: rest)

variable {t : Text} {c c' : Cursor}

theorem Splits.inBreak (h : Splits t c c') : InBreak c' := by
  obtain ⟨pre, rest, _, _, h⟩ := h
  exact ⟨crlf pre, crlf rest, h⟩

theorem splits_behind {pre rest : Text} (h : t = pre ++ '\n' :: rest) :
    Splits t (behind (pre ++ ['\n']) rest) (behind (crlf pre ++ ['\r']) ('\n' :: crlf rest)) := ⟨pre, rest, h, rfl, rfl⟩

theorem twin_end (t : Text) : Twin t (behind t []) (behind (crlf t) []) := ⟨t, [], (List.append_nil t).symm, rfl, rfl⟩

theorem twin_char {pre rest : Text} {x : Char} (h : t = pre ++ x :: rest) (hx : x ≠ '\n') :
    Twin t (behind pre (x :: rest)) (behind (crlf pre) (x :: crlf rest)) :=
  ⟨pre, x :: rest, h, rfl, by rw [Text.crlf_cons hx]⟩

theorem Twin.atWordBoundary_eq (h : Twin t c c') : c'.atWordBoundary = c.atWordBoundary := by
  obtain ⟨pre, rest, _, rfl, rfl⟩ := h
  simp only [atWordBoundary, behind, Text.getLast?_crlf]
  rw [Text.head?_any_crlf (by decide)]

theorem Twin.atLineStart_eq (h : Twin t c c') : c'.atLineStart = c.atLineStart := by
  obtain ⟨pre, rest, _, rfl, rfl⟩ := h
  simp only [atLineStart, behind, Text.getLast?_crlf]

theorem Twin.pos_eq_zero (h : Twin t c c') : c'.pos = 0 ↔ c.pos = 0 := by
  obtain ⟨pre, rest, _, rfl, rfl⟩ := h
  simp

theorem Twin.rest_isEmpty (h : Twin t c c') : c'.rest.isEmpty = c.rest.isEmpty := by
  obtain ⟨pre, rest, _, rfl, rfl⟩ := h
  rw [Bool.eq_iff_iff]
  simp

theorem InBreak.atWordBoundary (h : InBreak c') : c'.atWordBoundary = false := by
  obtain ⟨pre, rest, rfl⟩ := h
  simp only [Cursor.atWordBoundary, behind, List.getLast?_concat, List.head?_cons, Option.any_some]
  decide

theorem InBreak.atLineStart (h : InBreak c') : c'.atLineStart = false := by
  obtain ⟨pre, rest, rfl⟩ := h
  simp only [Cursor.atLineStart, behind, List.getLast?_concat]
  decide

theorem InBreak.pos_ne_zero (h : InBreak c') : c'.pos ≠ 0 := by
  obtain ⟨pre, rest, rfl⟩ := h
  simp

theorem InBreak.rest_isEmpty (h : InBreak c') : c'.rest.isEmpty = false := by
  obtain ⟨pre, rest, rfl⟩ := h
  rfl

end Cursor

namespace Pattern

open Cursor (behind Twin Splits InBreak)
open Text (crlf crlf_nil crlf_cons crlf_feed crlf_append)

/-- What a continuation does inside of line breaks. -/
inductive Hold where
  /-- anything -/
  | plain
  /-- it fails there if it fails behind the break -/
  | skips
  /-- it goes on there as it does behind the break -/
  | absorbs
  /-- it fails there -/
  | solid
  deriving DecidableEq

namespace Hold

/-- What holds of the choice between two continuations. -/
def meet : Hold → Hold → Hold
  | solid, solid => solid
  | absorbs, absorbs => absorbs
  | plain, _ => plain
  | _, plain => plain
  | _, _ => skips

theorem meet_comm (d e : Hold) : d.meet e = e.meet d := by
  cases d <;> cases e <;> rfl

theorem meet_cases (d e : Hold) : d.meet e = d ∨ d.meet e = plain ∨ d.meet e = skips ∧ d ≠ plain := by
  cases d <;> cases e <;> decide

theorem meet_eq_solid {d e : Hold} : d.meet e = solid ↔ d = solid ∧ e = solid := by
  cases d <;> cases e <;> simp [meet]

variable (free : List Nat) (t : Text) {α β : Type} (R : α → β → Prop)

/-- Whether marks are made at the same places, but for groups with one of the numbers `free`. -/
def SameMarks (g g' : Marks) : Prop :=
  List.Forall₂ (fun x x' => x.1 = x'.1 ∧ (x.1 ∈ free ∨ Twin t x.2.1 x'.2.1 ∧ Twin t x.2.2 x'.2.2)) g g'

/-- What the continuation `k'` does inside of line breaks, compared with `k` behind them. -/
def Inside (k : Cursor → Marks → Option α) (k' : Cursor → Marks → Option β) : Hold → Prop
  | plain => True
  | skips => ∀ c c' g g', Splits t c c' → SameMarks free t g g' → k c g = none → k' c' g' = none
  | absorbs => ∀ c c' g g', Splits t c c' → SameMarks free t g g' → Option.Rel R (k c g) (k' c' g')
  | solid => ∀ c' g', InBreak c' → k' c' g' = none

/-- Whether two continuations agree at the same places, and inside of breaks as the hold says. -/
structure Fits (h : Hold) (k : Cursor → Marks → Option α) (k' : Cursor → Marks → Option β) : Prop where
  twin : ∀ c c' g g', Twin t c c' → SameMarks free t g g' → Option.Rel R (k c g) (k' c' g')
  inside : h.Inside free t R k k'

variable {free t R} {k l : Cursor → Marks → Option α} {k' l' : Cursor → Marks → Option β} {d e : Hold}

/-- Every hold but the plain one skips. -/
theorem Inside.skips (h : d.Inside free t R k k') (hd : d ≠ plain) : Hold.skips.Inside free t R k k' := by
  intro c c' g g' hc hg hk
  cases d with
  | plain => exact absurd rfl hd
  | skips => exact h c c' g g' hc hg hk
  | absorbs =>
    have hrel := h c c' g g' hc hg
    rw [hk] at hrel
    exact eq_none_of_rel hrel
  | solid => exact h c' g' hc.inBreak

/-- The meet asks no more than either of the two. -/
theorem Inside.meet_left (h : d.Inside free t R k k') (e : Hold) : (d.meet e).Inside free t R k k' := by
  rcases meet_cases d e with hm | hm | ⟨hm, hd⟩
  · rw [hm]
    exact h
  · rw [hm]
    exact trivial
  · rw [hm]
    exact h.skips hd

theorem Inside.meet_right (h : e.Inside free t R k k') (d : Hold) : (d.meet e).Inside free t R k k' := by
  rw [meet_comm]
  exact h.meet_left d

theorem Inside.or (hk : d.Inside free t R k k') (hl : d.Inside free t R l l') :
    d.Inside free t R (fun c g => (k c g).or (l c g)) (fun c g => (k' c g).or (l' c g)) := by
  cases d with
  | plain => exact trivial
  | skips =>
    intro c c' g g' hc hg h
    rw [Option.or_eq_none_iff] at h ⊢
    exact ⟨hk c c' g g' hc hg h.1, hl c c' g g' hc hg h.2⟩
  | absorbs => exact fun c c' g g' hc hg => rel_or (hk c c' g g' hc hg) (hl c c' g g' hc hg)
  | solid =>
    intro c' g' hc
    rw [Option.or_eq_none_iff]
    exact ⟨hk c' g' hc, hl c' g' hc⟩

end Hold

/-- The hold of a pattern before something with the hold `d`, if the pattern does not tell apart line breaks with and
without a carriage return. Nothing is kept track of for the groups with one of the numbers `free`. -/
def hold (free : List Nat) : Pattern → Hold → Option Hold
  | nothing, d => some d
  | one p, d =>
    match p '\r', p '\n' with
    | false, false => some .solid
    | true, true => if d = .absorbs then some .plain else none
    | true, false => if d = .solid then some .solid else none
    | false, true => none
  | many p, d =>
    match p '\r', p '\n' with
    | false, false => some (if d = .absorbs then .skips else d)
    | true, true => if d = .plain then none else some .absorbs
    | true, false => if d = .solid then some .solid else none
    | false, true => none
  | few p, d =>
    match p '\r', p '\n' with
    | false, false => some (if d = .absorbs then .skips else d)
    | true, true => if d = .absorbs ∨ d = .solid then some .absorbs else none
    | true, false => if d = .solid then some .solid else none
    | false, true => none
  | seq a b, d => (b.hold free d).bind (a.hold free)
  | alt a b, d => (a.hold free d).bind fun e => (b.hold free d).map e.meet
  | opt a, d => (a.hold free d).map fun e => e.meet d
  | group n a, d =>
    if n ∈ free then a.hold free d
    else (a.hold free (if d = .solid then .solid else .plain)).map fun e => if e = .solid then .solid else .plain
  | wordBoundary, _ => some .solid
  | lineStart, _ => some .solid
  | textStart, _ => some .solid
  | textEnd, _ => some .solid

section Classes

variable {free : List Nat} {p : Char → Bool} {d e : Hold}

theorem one_hold (h : (one p).hold free d = some e) :
    (p '\r' = false ∧ p '\n' = false ∧ e = .solid) ∨ (p '\r' = true ∧ p '\n' = false ∧ d = .solid ∧ e = .solid) ∨
      (p '\r' = true ∧ p '\n' = true ∧ d = .absorbs ∧ e = .plain) := by
  rw [hold] at h
  cases hr : p '\r' <;> cases hn : p '\n' <;> simp_all

theorem many_hold (h : (many p).hold free d = some e) :
    (p '\r' = false ∧ p '\n' = false ∧ e = if d = .absorbs then .skips else d) ∨
      (p '\r' = true ∧ p '\n' = false ∧ d = .solid ∧ e = .solid) ∨
      (p '\r' = true ∧ p '\n' = true ∧ d ≠ .plain ∧ e = .absorbs) := by
  rw [hold] at h
  cases hr : p '\r' <;> cases hn : p '\n' <;> simp_all

theorem few_hold (h : (few p).hold free d = some e) :
    (p '\r' = false ∧ p '\n' = false ∧ e = if d = .absorbs then .skips else d) ∨
      (p '\r' = true ∧ p '\n' = false ∧ d = .solid ∧ e = .solid) ∨
      (p '\r' = true ∧ p '\n' = true ∧ (d = .absorbs ∨ d = .solid) ∧ e = .absorbs) := by
  rw [hold] at h
  cases hr : p '\r' <;> cases hn : p '\n' <;> simp only [hr, hn] at h
  · exact Or.inl ⟨rfl, rfl, (Option.some.inj h).symm⟩
  · cases h
  · split at h
    · exact Or.inr (Or.inl ⟨rfl, rfl, ‹_›, (Option.some.inj h).symm⟩)
    · cases h
  · split at h
    · exact Or.inr (Or.inr ⟨rfl, rfl, ‹_›, (Option.some.inj h).symm⟩)
    · cases h

theorem not_feed_of_one_solid (h : (one p).hold free d = some .solid) : p '\n' = false := by
  rcases one_hold h with ⟨_, hn, _⟩ | ⟨_, hn, _⟩ | ⟨_, _, _, he⟩
  · exact hn
  · exact hn
  · cases he

theorem not_feed_of_many_solid (h : (many p).hold free d = some .solid) : p '\n' = false ∧ d = .solid := by
  rcases many_hold h with ⟨_, hn, he⟩ | ⟨_, hn, hd, _⟩ | ⟨_, _, _, he⟩
  · split at he
    · cases he
    · exact ⟨hn, he.symm⟩
  · exact ⟨hn, hd⟩
  · cases he

theorem not_feed_of_few_solid (h : (few p).hold free d = some .solid) : p '\n' = false ∧ d = .solid := by
  rcases few_hold h with ⟨_, hn, he⟩ | ⟨_, hn, hd, _⟩ | ⟨_, _, _, he⟩
  · split at he
    · cases he
    · exact ⟨hn, he.symm⟩
  · exact ⟨hn, hd⟩
  · cases he

end Classes

/-! ## Solid patterns -/

section Solid

variable {free : List Nat} {β : Type} {k' : Cursor → Marks → Option β}

/-- **A solid pattern fails inside of breaks**, whatever follows it if that need not be solid. -/
theorem hold_solid {q : Pattern} {d : Hold} (h : q.hold free d = some .solid)
    (hk : d = .solid → ∀ c' g', InBreak c' → k' c' g' = none) (c' : Cursor) (g' : Marks) (hc : InBreak c') :
    q.run c' g' k' = none := by
  induction q generalizing d k' c' g' with
  | nothing => exact hk (Option.some.inj h) c' g' hc
  | one p =>
    obtain ⟨pre, rest, rfl⟩ := hc
    rw [run_one_cons, not_feed_of_one_solid h]
    rfl
  | many p =>
    obtain ⟨pre, rest, rfl⟩ := hc
    obtain ⟨hn, hd⟩ := not_feed_of_many_solid h
    rw [run_many_cons, hn]
    exact hk hd _ g' ⟨pre, rest, rfl⟩
  | few p =>
    obtain ⟨pre, rest, rfl⟩ := hc
    obtain ⟨hn, hd⟩ := not_feed_of_few_solid h
    rw [run_few_cons, hn, hk hd _ g' ⟨pre, rest, rfl⟩]
    rfl
  | seq a b iha ihb =>
    obtain ⟨e, hb, ha⟩ := Option.bind_eq_some_iff.mp h
    exact iha ha (fun he c' g' hc => ihb (he ▸ hb) hk c' g' hc) c' g' hc
  | alt a b iha ihb =>
    obtain ⟨e, ha, hb⟩ := Option.bind_eq_some_iff.mp h
    obtain ⟨e', hb, hm⟩ := Option.map_eq_some_iff.mp hb
    obtain ⟨rfl, rfl⟩ := Hold.meet_eq_solid.mp hm
    rw [run, iha ha hk c' g' hc]
    exact ihb hb hk c' g' hc
  | opt a ih =>
    obtain ⟨e, ha, hm⟩ := Option.map_eq_some_iff.mp h
    obtain ⟨rfl, rfl⟩ := Hold.meet_eq_solid.mp hm
    rw [run, ih ha hk c' g' hc]
    exact hk rfl c' g' hc
  | group n a ih =>
    rw [hold] at h
    split at h
    · exact ih h (fun hd x g hx => hk hd x _ hx) c' g' hc
    · obtain ⟨e, ha, he⟩ := Option.map_eq_some_iff.mp h
      have he : e = .solid := by split at he <;> simp_all
      refine ih (he ▸ ha) (fun hd x g hx => hk ?_ x _ hx) c' g' hc
      split at hd
      · assumption
      · cases hd
  | wordBoundary => simp [run, hc.atWordBoundary]
  | lineStart => simp [run, hc.atLineStart]
  | textStart => simp [run, hc.pos_ne_zero]
  | textEnd => simp [run, hc.rest_isEmpty]

end Solid

/-! ## Continuations that fit -/

section Fits

variable {free : List Nat} {t : Text} {α β : Type} {R : α → β → Prop} {k : Cursor → Marks → Option α}
  {k' : Cursor → Marks → Option β} {d e : Hold}

theorem solid_inside {q : Pattern} (h : q.hold free d = some .solid) (hk : d.Inside free t R k k') :
    Hold.solid.Inside free t R (fun c g => q.run c g k) (fun c g => q.run c g k') :=
  fun c' g' hc => hold_solid h (fun hd => by subst hd; exact hk) c' g' hc

namespace Hold

/-- The choice between two continuations fits if both do. -/
theorem Fits.or {l : Cursor → Marks → Option α} {l' : Cursor → Marks → Option β} (hk : d.Fits free t R k k')
    (hl : e.Fits free t R l l') :
    (d.meet e).Fits free t R (fun c g => (k c g).or (l c g)) (fun c g => (k' c g).or (l' c g)) :=
  ⟨fun c c' g g' hc hg => rel_or (hk.twin c c' g g' hc hg) (hl.twin c c' g g' hc hg),
    (hk.inside.meet_left e).or (hl.inside.meet_right d)⟩

/-- A test that tells the same of the same places, and fails inside of breaks, makes a continuation solid. -/
theorem Fits.test {p : Cursor → Prop} [DecidablePred p] (hk : d.Fits free t R k k')
    (htwin : ∀ c c', Twin t c c' → (p c' ↔ p c)) (hbreak : ∀ c', InBreak c' → ¬ p c') :
    solid.Fits free t R (fun c g => if p c then k c g else none) (fun c g => if p c then k' c g else none) := by
  constructor
  · intro c c' g g' hc hg
    by_cases hp : p c
    · rw [if_pos hp, if_pos ((htwin c c' hc).mpr hp)]
      exact hk.twin c c' g g' hc hg
    · rw [if_neg hp, if_neg fun hp' => hp ((htwin c c' hc).mp hp')]
      exact Option.Rel.none
  · intro c' g' hc
    exact if_neg (hbreak c' hc)

/-- Marks of a group that nobody looks at may be anywhere. -/
theorem Fits.mark_free {n : Nat} (hk : d.Fits free t R k k') (hn : n ∈ free) (c₀ c₀' : Cursor) :
    d.Fits free t R (fun c g => k c ((n, c₀, c) :: g)) (fun c g => k' c ((n, c₀', c) :: g)) := by
  have hmarks (c c' : Cursor) {g g' : Marks} (hg : SameMarks free t g g') :
      SameMarks free t ((n, c₀, c) :: g) ((n, c₀', c') :: g') := List.Forall₂.cons ⟨rfl, Or.inl hn⟩ hg
  refine ⟨fun c c' g g' hc hg => hk.twin c c' _ _ hc (hmarks c c' hg), ?_⟩
  have hin := hk.inside
  cases d with
  | plain => exact trivial
  | skips => exact fun c c' g g' hc hg => hin c c' _ _ hc (hmarks c c' hg)
  | absorbs => exact fun c c' g g' hc hg => hin c c' _ _ hc (hmarks c c' hg)
  | solid => exact fun c' g' hc => hin c' _ hc

/-- Marks between the same places agree. Inside of breaks no mark does, so nothing may get that far or anything. -/
theorem Fits.mark {n : Nat} (hk : d.Fits free t R k k') {c₀ c₀' : Cursor} (h₀ : Twin t c₀ c₀') :
    (if d = solid then solid else plain).Fits free t R (fun c g => k c ((n, c₀, c) :: g))
      (fun c g => k' c ((n, c₀', c) :: g)) := by
  refine ⟨fun c c' g g' hc hg => hk.twin c c' _ _ hc (List.Forall₂.cons ⟨rfl, Or.inr ⟨h₀, hc⟩⟩ hg), ?_⟩
  split
  · rename_i hd
    subst hd
    exact fun c' g' hc => hk.inside c' _ hc
  · exact trivial

end Hold

end Fits

end Pattern

end Checkup
