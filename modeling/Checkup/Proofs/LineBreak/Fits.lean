import Checkup.Proofs.LineBreak.Repetition

/-!
# The two searches agree

Before continuations that fit, a pattern fits as `hold` says (`hold_fits`).
-/

namespace Checkup.Pattern

open Cursor (behind splits_behind)
open Text (crlf crlf_cons)

variable {free : List Nat} {t : Text} {α β : Type} {R : α → β → Prop} {k : Cursor → Marks → Option α}
  {k' : Cursor → Marks → Option β} {d e : Hold}

section One

variable {p : Char → Bool}

/-- Before a break the second search goes on behind the return, if it does, where the first one is behind the break. -/
theorem one_break (h : (one p).hold free d = some e) (hk : d.Fits free t R k k') {g g' : Marks}
    (hg : Hold.SameMarks free t g g') {pre rest : Text} (ht : t = pre ++ '\n' :: rest) :
    Option.Rel R ((one p).run (behind pre ('\n' :: rest)) g k)
      ((one p).run (behind (crlf pre) ('\r' :: '\n' :: crlf rest)) g' k') := by
  have hsplit := splits_behind ht
  rw [run_one_cons, run_one_cons]
  rcases one_hold h with ⟨hr, hn, rfl⟩ | ⟨hr, hn, rfl, rfl⟩ | ⟨hr, hn, rfl, rfl⟩
  · rw [hr, hn]
    exact Option.Rel.none
  · rw [hr, hn, if_pos rfl, hk.inside _ g' hsplit.inBreak]
    exact Option.Rel.none
  · rw [hr, hn]
    exact hk.inside _ _ g g' hsplit hg

theorem one_fits (h : (one p).hold free d = some e) (hk : d.Fits free t R k k') :
    e.Fits free t R (fun c g => (one p).run c g k) (fun c g => (one p).run c g k') := by
  constructor
  · rintro c c' g g' ⟨pre, rest, ht, rfl, rfl⟩ hg
    cases rest with
    | nil => exact Option.Rel.none
    | cons x rest =>
      by_cases hx : x = '\n'
      · subst hx
        exact one_break h hk hg ht
      · rw [crlf_cons hx, run_one_cons, run_one_cons]
        cases p x with
        | false => exact Option.Rel.none
        | true => exact hk.twin _ _ g g' ⟨pre ++ [x], rest, by simpa using ht, rfl, by simp [crlf_cons hx]⟩ hg
  · rcases one_hold h with ⟨_, _, rfl⟩ | ⟨_, _, rfl, rfl⟩ | ⟨_, _, _, rfl⟩
    · exact solid_inside h hk.inside
    · exact solid_inside h hk.inside
    · exact trivial

end One

/-- **The searches agree.** Before continuations that fit, a pattern fits as `hold` says. -/
theorem hold_fits {q : Pattern} (h : q.hold free d = some e) (hk : d.Fits free t R k k') :
    e.Fits free t R (fun c g => q.run c g k) (fun c g => q.run c g k') := by
  induction q generalizing d e k k' with
  | nothing =>
    obtain rfl := Option.some.inj h
    exact hk
  | one p => exact one_fits h hk
  | many p => exact many_fits h hk
  | few p => exact few_fits h hk
  | seq a b iha ihb =>
    obtain ⟨e', hb, ha⟩ := Option.bind_eq_some_iff.mp h
    exact iha ha (ihb hb hk)
  | alt a b iha ihb =>
    obtain ⟨e₁, ha, hm⟩ := Option.bind_eq_some_iff.mp h
    obtain ⟨e₂, hb, rfl⟩ := Option.map_eq_some_iff.mp hm
    simp only [run_alt]
    exact (iha ha hk).or (ihb hb hk)
  | opt a ih =>
    obtain ⟨e₁, ha, rfl⟩ := Option.map_eq_some_iff.mp h
    simp only [run_opt]
    exact (ih ha hk).or hk
  | group n a ih =>
    have hsolid := fun hs : e = .solid => solid_inside (hs ▸ h) hk.inside
    rw [hold] at h
    -- the hypothesis is about a continuation that marks the start of the group, so each start needs its own
    split at h
    · rename_i hn
      have hfits (c c' : Cursor) := ih h (hk.mark_free hn c c')
      refine ⟨fun c c' g g' hc hg => (hfits c c').twin c c' g g' hc hg, ?_⟩
      cases e with
      | plain => exact trivial
      | skips => exact fun c c' g g' hc hg => (hfits c c').inside c c' g g' hc hg
      | absorbs => exact fun c c' g g' hc hg => (hfits c c').inside c c' g g' hc hg
      | solid => exact hsolid rfl
    · obtain ⟨e', ha, he⟩ := Option.map_eq_some_iff.mp h
      refine ⟨fun c c' g g' hc hg => (ih ha (hk.mark hc)).twin c c' g g' hc hg, ?_⟩
      split at he
      · exact he ▸ hsolid he.symm
      · exact he ▸ trivial
  | wordBoundary =>
    obtain rfl := Option.some.inj h
    exact hk.test (fun c c' hc => by rw [hc.atWordBoundary_eq]) fun c' hc => by simp [hc.atWordBoundary]
  | lineStart =>
    obtain rfl := Option.some.inj h
    exact hk.test (fun c c' hc => by rw [hc.atLineStart_eq]) fun c' hc => by simp [hc.atLineStart]
  | textStart =>
    obtain rfl := Option.some.inj h
    exact hk.test (fun c c' hc => hc.pos_eq_zero) fun c' hc => hc.pos_ne_zero
  | textEnd =>
    obtain rfl := Option.some.inj h
    exact hk.test (fun c c' hc => by rw [hc.rest_isEmpty]) fun c' hc => by simp [hc.rest_isEmpty]

end Checkup.Pattern
