import Checkup.Proofs.LineBreak.Hold

/-!
# Repetition across line breaks

Two searches agree at the same places of the two texts if they do before breaks and keep it from one character to the
next (`rel_of_next`). So repetition of a class agrees if it does before breaks (`run_many_rel`, `run_few_rel`), where it
depends on what the class takes. A class that takes both characters of a break goes on inside of it as behind it
(`run_many_inside`, `run_few_inside`). So repetition fits as `hold` says (`many_fits`, `few_fits`).
-/

namespace Checkup.Pattern

open Cursor (behind splits_behind twin_end twin_char Twin Splits)
open Text (crlf crlf_nil crlf_cons crlf_feed crlf_append)

/-! ## One repetition -/

section Repetition

variable {t : Text} {α β : Type} {R : α → β → Prop} {p : Char → Bool} {k : Cursor → Marks → Option α}
  {k' : Cursor → Marks → Option β} {g g' : Marks}

/-- What the continuation makes of the place itself, repetition does not miss. -/
theorem eq_none_of_run_many {pre rest : Text} (h : (many p).run (behind pre rest) g k = none) :
    k (behind pre rest) g = none := by
  cases rest with
  | nil => rwa [run_many_nil] at h
  | cons x rest =>
    rw [run_many_cons] at h
    split at h
    · exact (Option.or_eq_none_iff.mp h).2
    · exact h

theorem run_few_eq {pre rest : Text} {r : α} (h : k (behind pre rest) g = some r) :
    (few p).run (behind pre rest) g k = some r := by
  cases rest with
  | nil => rwa [run_few_nil]
  | cons x rest => rw [run_few_cons, h, Option.some_or]

/-- Two searches agree at the same places if they do at the end and, once they do behind a character, also before it.
Only a break is not the same character in both texts. -/
theorem rel_of_next (f : Cursor → Option α) (f' : Cursor → Option β)
    (hend : Option.Rel R (f (behind t [])) (f' (behind (crlf t) [])))
    (hchar : ∀ pre x rest, t = pre ++ x :: rest → x ≠ '\n' →
      Option.Rel R (f (behind (pre ++ [x]) rest)) (f' (behind (crlf pre ++ [x]) (crlf rest))) →
      Option.Rel R (f (behind pre (x :: rest))) (f' (behind (crlf pre) (x :: crlf rest))))
    (hbreak : ∀ pre rest, t = pre ++ '\n' :: rest →
      Option.Rel R (f (behind (pre ++ ['\n']) rest)) (f' (behind (crlf (pre ++ ['\n'])) (crlf rest))) →
      Option.Rel R (f (behind pre ('\n' :: rest))) (f' (behind (crlf pre) (crlf ('\n' :: rest)))))
    (pre rest : Text) (ht : t = pre ++ rest) :
    Option.Rel R (f (behind pre rest)) (f' (behind (crlf pre) (crlf rest))) := by
  induction rest generalizing pre with
  | nil =>
    rw [List.append_nil] at ht
    exact ht ▸ hend
  | cons x rest ih =>
    have hnext := ih (pre ++ [x]) (by simpa using ht)
    by_cases hx : x = '\n'
    · subst hx
      exact hbreak pre rest ht hnext
    · rw [crlf_append, crlf_cons hx, crlf_nil] at hnext
      rw [crlf_cons hx]
      exact hchar pre x rest ht hx hnext

/-- Greedy repetition agrees at the same places if it does before breaks. -/
theorem run_many_rel (hk : ∀ c c', Twin t c c' → Option.Rel R (k c g) (k' c' g'))
    (hbreak : ∀ pre rest, t = pre ++ '\n' :: rest →
      Option.Rel R ((many p).run (behind (pre ++ ['\n']) rest) g k)
        ((many p).run (behind (crlf (pre ++ ['\n'])) (crlf rest)) g' k') →
      Option.Rel R ((many p).run (behind pre ('\n' :: rest)) g k)
        ((many p).run (behind (crlf pre) (crlf ('\n' :: rest))) g' k'))
    (pre rest : Text) (ht : t = pre ++ rest) :
    Option.Rel R ((many p).run (behind pre rest) g k) ((many p).run (behind (crlf pre) (crlf rest)) g' k') := by
  refine rel_of_next (fun c => (many p).run c g k) (fun c => (many p).run c g' k') ?_
    (fun pre x rest ht hx hnext => ?_) hbreak pre rest ht
  · rw [run_many_nil, run_many_nil]
    exact hk _ _ (twin_end t)
  · have hhere := hk _ _ (twin_char ht hx)
    rw [run_many_cons, run_many_cons]
    cases p x with
    | true => exact rel_or hnext hhere
    | false => exact hhere

/-- Lazy repetition agrees at the same places if it does before breaks. -/
theorem run_few_rel (hk : ∀ c c', Twin t c c' → Option.Rel R (k c g) (k' c' g'))
    (hbreak : ∀ pre rest, t = pre ++ '\n' :: rest →
      Option.Rel R ((few p).run (behind (pre ++ ['\n']) rest) g k)
        ((few p).run (behind (crlf (pre ++ ['\n'])) (crlf rest)) g' k') →
      Option.Rel R ((few p).run (behind pre ('\n' :: rest)) g k)
        ((few p).run (behind (crlf pre) (crlf ('\n' :: rest))) g' k'))
    (pre rest : Text) (ht : t = pre ++ rest) :
    Option.Rel R ((few p).run (behind pre rest) g k) ((few p).run (behind (crlf pre) (crlf rest)) g' k') := by
  refine rel_of_next (fun c => (few p).run c g k) (fun c => (few p).run c g' k') ?_
    (fun pre x rest ht hx hnext => ?_) hbreak pre rest ht
  · rw [run_few_nil, run_few_nil]
    exact hk _ _ (twin_end t)
  · have hhere := hk _ _ (twin_char ht hx)
    rw [run_few_cons, run_few_cons]
    refine rel_or hhere ?_
    cases p x with
    | true => exact hnext
    | false => exact Option.Rel.none

/-- Greedy repetition that takes a break goes on inside of it as behind it. -/
theorem run_many_inside (hn : p '\n' = true) {pre rest : Text}
    (hk : k (behind (pre ++ ['\n']) rest) g = none → k' (behind (crlf pre ++ ['\r']) ('\n' :: crlf rest)) g' = none)
    (hnext : Option.Rel R ((many p).run (behind (pre ++ ['\n']) rest) g k)
      ((many p).run (behind (crlf (pre ++ ['\n'])) (crlf rest)) g' k')) :
    Option.Rel R ((many p).run (behind (pre ++ ['\n']) rest) g k)
      ((many p).run (behind (crlf pre ++ ['\r']) ('\n' :: crlf rest)) g' k') := by
  have hafter : crlf (pre ++ ['\n']) = crlf pre ++ ['\r'] ++ ['\n'] := by simp
  rw [run_many_cons, if_pos hn, ← hafter]
  cases hm : (many p).run (behind (pre ++ ['\n']) rest) g k with
  | none =>
    rw [hm] at hnext
    rw [eq_none_of_rel hnext, hk (eq_none_of_run_many hm)]
    exact Option.Rel.none
  | some r =>
    rw [hm] at hnext
    obtain ⟨r', hr', h⟩ := eq_some_of_rel hnext
    rw [hr', Option.some_or]
    exact Option.Rel.some h

/-- So does lazy repetition, before something that goes on there too or fails. -/
theorem run_few_inside (hn : p '\n' = true) {pre rest : Text}
    (hk : Option.Rel R (k (behind (pre ++ ['\n']) rest) g) (k' (behind (crlf pre ++ ['\r']) ('\n' :: crlf rest)) g') ∨
      k' (behind (crlf pre ++ ['\r']) ('\n' :: crlf rest)) g' = none)
    (hnext : Option.Rel R ((few p).run (behind (pre ++ ['\n']) rest) g k)
      ((few p).run (behind (crlf (pre ++ ['\n'])) (crlf rest)) g' k')) :
    Option.Rel R ((few p).run (behind (pre ++ ['\n']) rest) g k)
      ((few p).run (behind (crlf pre ++ ['\r']) ('\n' :: crlf rest)) g' k') := by
  have hafter : crlf (pre ++ ['\n']) = crlf pre ++ ['\r'] ++ ['\n'] := by simp
  rw [run_few_cons, if_pos hn, ← hafter]
  rcases hk with hk | hk
  · cases hm : k (behind (pre ++ ['\n']) rest) g with
    | none =>
      rw [hm] at hk
      rw [eq_none_of_rel hk, Option.none_or]
      exact hnext
    | some r =>
      rw [hm] at hk
      obtain ⟨r', hr', h⟩ := eq_some_of_rel hk
      rw [run_few_eq hm, hr', Option.some_or]
      exact Option.Rel.some h
  · rw [hk, Option.none_or]
    exact hnext

end Repetition

/-! ## Continuations that fit -/

section Fits

variable {free : List Nat} {t : Text} {α β : Type} {R : α → β → Prop} {k : Cursor → Marks → Option α}
  {k' : Cursor → Marks → Option β} {d e : Hold} {p : Char → Bool}

/-- Greedy repetition that stops at breaks skips them if what follows does. -/
theorem many_skips (hn : p '\n' = false) (hk : Hold.skips.Inside free t R k k') :
    Hold.skips.Inside free t R (fun c g => (many p).run c g k) (fun c g => (many p).run c g k') := by
  intro c c' g g' hsplit hg hnone
  have hmid := hk c c' g g' hsplit hg
  obtain ⟨pre, rest, ht, rfl, rfl⟩ := hsplit
  dsimp only
  rw [run_many_cons, hn, if_neg (by decide)]
  exact hmid (eq_none_of_run_many hnone)

/-- So does lazy repetition. -/
theorem few_skips (hn : p '\n' = false) (hk : Hold.skips.Inside free t R k k') :
    Hold.skips.Inside free t R (fun c g => (few p).run c g k) (fun c g => (few p).run c g k') := by
  intro c c' g g' hsplit hg hnone
  have hmid := hk c c' g g' hsplit hg
  obtain ⟨pre, rest, ht, rfl, rfl⟩ := hsplit
  have hafter : k (behind (pre ++ ['\n']) rest) g = none := by
    cases hr : k (behind (pre ++ ['\n']) rest) g with
    | none => rfl
    | some r => exact (Option.some_ne_none r ((run_few_eq hr).symm.trans hnone)).elim
  dsimp only
  rw [run_few_cons, hn, hmid hafter]
  rfl

theorem many_twin (h : (many p).hold free d = some e) (hk : d.Fits free t R k k') {g g' : Marks}
    (hg : Hold.SameMarks free t g g') (pre rest : Text) (ht : t = pre ++ rest) :
    Option.Rel R ((many p).run (behind pre rest) g k) ((many p).run (behind (crlf pre) (crlf rest)) g' k') := by
  refine run_many_rel (fun c c' hc => hk.twin c c' g g' hc hg) (fun pre rest ht hnext => ?_) pre rest ht
  have hsplit := splits_behind ht
  have hhere := hk.twin _ _ g g' ⟨pre, '\n' :: rest, ht, rfl, rfl⟩ hg
  rw [crlf_feed] at hhere ⊢
  rw [run_many_cons pre, run_many_cons (crlf pre)]
  rcases many_hold h with ⟨hr, hn, _⟩ | ⟨hr, hn, rfl, _⟩ | ⟨hr, hn, hd, _⟩
  · -- both searches stop before the break
    rw [hr, hn]
    exact hhere
  · -- only the second one takes a character, the return, and has to give it back
    rw [hr, hn, if_pos rfl, run_many_cons, hn, if_neg (by decide), if_neg (by decide), hk.inside _ g' hsplit.inBreak,
      Option.none_or]
    exact hhere
  · rw [hr, hn]
    exact rel_or (run_many_inside hn (hk.inside.skips hd _ _ g g' hsplit hg) hnext) hhere

theorem many_fits (h : (many p).hold free d = some e) (hk : d.Fits free t R k k') :
    e.Fits free t R (fun c g => (many p).run c g k) (fun c g => (many p).run c g k') := by
  constructor
  · rintro c c' g g' ⟨pre, rest, ht, rfl, rfl⟩ hg
    exact many_twin h hk hg pre rest ht
  · rcases many_hold h with ⟨_, hn, rfl⟩ | ⟨_, _, rfl, rfl⟩ | ⟨_, hn, hd, rfl⟩
    · cases d with
      | plain => exact trivial
      | skips => exact many_skips hn hk.inside
      | absorbs => exact many_skips hn (hk.inside.skips (by decide))
      | solid => exact solid_inside h hk.inside
    · exact solid_inside h hk.inside
    · intro c c' g g' hsplit hg
      have hmid := hk.inside.skips hd c c' g g' hsplit hg
      obtain ⟨pre, rest, ht, rfl, rfl⟩ := hsplit
      exact run_many_inside hn hmid (many_twin h hk hg _ _ (by simpa using ht))

/-- What goes on inside of breaks as behind them, or fails there. -/
theorem Hold.Inside.rel_or_none (hk : d.Inside free t R k k') (hd : d = .absorbs ∨ d = .solid) {c c' : Cursor}
    {g g' : Marks} (hsplit : Splits t c c') (hg : Hold.SameMarks free t g g') :
    Option.Rel R (k c g) (k' c' g') ∨ k' c' g' = none := by
  rcases hd with rfl | rfl
  · exact Or.inl (hk c c' g g' hsplit hg)
  · exact Or.inr (hk c' g' hsplit.inBreak)

theorem few_twin (h : (few p).hold free d = some e) (hk : d.Fits free t R k k') {g g' : Marks}
    (hg : Hold.SameMarks free t g g') (pre rest : Text) (ht : t = pre ++ rest) :
    Option.Rel R ((few p).run (behind pre rest) g k) ((few p).run (behind (crlf pre) (crlf rest)) g' k') := by
  refine run_few_rel (fun c c' hc => hk.twin c c' g g' hc hg) (fun pre rest ht hnext => ?_) pre rest ht
  have hsplit := splits_behind ht
  have hhere := hk.twin _ _ g g' ⟨pre, '\n' :: rest, ht, rfl, rfl⟩ hg
  rw [crlf_feed] at hhere ⊢
  rw [run_few_cons pre, run_few_cons (crlf pre)]
  refine rel_or hhere ?_
  rcases few_hold h with ⟨hr, hn, _⟩ | ⟨hr, hn, rfl, _⟩ | ⟨hr, hn, hd, _⟩
  · rw [hr, hn]
    exact Option.Rel.none
  · -- behind the return the second search can neither go on nor take the feed
    rw [hr, hn, if_pos rfl, run_few_cons, hn, hk.inside _ g' hsplit.inBreak]
    exact Option.Rel.none
  · rw [hr, hn]
    exact run_few_inside hn (hk.inside.rel_or_none hd hsplit hg) hnext

theorem few_fits (h : (few p).hold free d = some e) (hk : d.Fits free t R k k') :
    e.Fits free t R (fun c g => (few p).run c g k) (fun c g => (few p).run c g k') := by
  constructor
  · rintro c c' g g' ⟨pre, rest, ht, rfl, rfl⟩ hg
    exact few_twin h hk hg pre rest ht
  · rcases few_hold h with ⟨_, hn, rfl⟩ | ⟨_, _, rfl, rfl⟩ | ⟨_, hn, hd, rfl⟩
    · cases d with
      | plain => exact trivial
      | skips => exact few_skips hn hk.inside
      | absorbs => exact few_skips hn (hk.inside.skips (by decide))
      | solid => exact solid_inside h hk.inside
    · exact solid_inside h hk.inside
    · intro c c' g g' hsplit hg
      have hmid := hk.inside.rel_or_none hd hsplit hg
      obtain ⟨pre, rest, ht, rfl, rfl⟩ := hsplit
      exact run_few_inside hn hmid (few_twin h hk hg _ _ (by simpa using ht))

end Fits

end Checkup.Pattern
