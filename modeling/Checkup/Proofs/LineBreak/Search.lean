import Checkup.Proofs.LineBreak.Crlf
import Checkup.Proofs.Related
import Checkup.Proofs.Text.Occurrence
import Checkup.Proofs.Text.Piece
import Checkup.Rule.Basic
import Checkup.Text.Identifier
import Checkup.Text.Lowercase
import Mathlib.Data.List.Induction

/-!
# Searching and cutting with and without carriage returns

* Searches for texts that hold no part of a line break (`Text.Breakless`) find the same: `occurs_crlf`, `indexes_crlf`,
  `mentions_crlf`.
* Blanks are dropped together with the carriage returns among them: `trimStart_crlf`, `trim_crlf`.
* Brackets are closed at the same places: `blockEnd_crlf`, `findAfter_crlf`.
-/

namespace Checkup.Text

variable {t needle : Text} {c : Char}

/-! ## Searches -/

theorem isPrefixOf_crlf (hn : Breakless needle) (t : Text) : needle.isPrefixOf (crlf t) = needle.isPrefixOf t := by
  induction needle generalizing t with
  | nil => simp
  | cons a needle ih =>
    cases t with
    | nil => rfl
    | cons c t =>
      by_cases hc : c = '\n'
      · subst hc
        simp [List.isPrefixOf, beq_false_of_ne hn.head_ne.1, beq_false_of_ne hn.head_ne.2]
      · rw [crlf_cons hc, List.isPrefixOf, List.isPrefixOf, ih hn.tail]

theorem startsWith_crlf (hn : Breakless needle) (t : Text) : startsWith needle (crlf t) = startsWith needle t :=
  isPrefixOf_crlf hn t

theorem isPrefixOf_cons_of_not_mem (hc : c ∉ needle) (t : Text) : needle.isPrefixOf (c :: t) = needle.isEmpty := by
  cases needle with
  | nil => simp
  | cons a needle =>
    have hne : a ≠ c := fun e => hc (by simp [e])
    simp [List.isPrefixOf, hne]

theorem occurs_crlf (hn : Breakless needle) (t : Text) : occurs needle (crlf t) = occurs needle t := by
  induction t with
  | nil => rfl
  | cons c t ih =>
    by_cases hc : c = '\n'
    · subst hc
      rw [crlf_feed, occurs, occurs, occurs, isPrefixOf_cons_of_not_mem hn.2, isPrefixOf_cons_of_not_mem hn.1,
        isPrefixOf_cons_of_not_mem hn.1, ih, ← Bool.or_assoc, Bool.or_self]
    · have h := isPrefixOf_crlf hn (c :: t)
      rw [crlf_cons hc] at h ⊢
      rw [occurs, occurs, h, ih]

theorem has_crlf {s : String} (hs : Breakless s.toList) (t : Text) : has (crlf t) s = has t s := occurs_crlf hs t

theorem isPrefixOf_append_cr (hr : '\r' ∉ needle) (t : Text) :
    needle.isPrefixOf (t ++ ['\r']) = needle.isPrefixOf t := by
  induction needle generalizing t with
  | nil => simp
  | cons a needle ih =>
    rw [List.mem_cons, not_or] at hr
    cases t with
    | nil => simp [List.isPrefixOf, Ne.symm hr.1]
    | cons c t => rw [List.cons_append, List.isPrefixOf, List.isPrefixOf, ih hr.2]

/-- A carriage return at the end hides nothing. -/
theorem occurs_append_cr (hn : Breakless needle) (t : Text) : occurs needle (t ++ ['\r']) = occurs needle t := by
  induction t with
  | nil => simp [occurs, isPrefixOf_cons_of_not_mem hn.2]
  | cons c t ih =>
    rw [List.cons_append, occurs, occurs, ← List.cons_append, isPrefixOf_append_cr hn.2, ih]

theorem indexesFrom_cons_of_not_mem (hne : needle ≠ []) (hc : c ∉ needle) (size pos resume : Nat) (t : Text) :
    indexesFrom needle size pos resume (c :: t) = indexesFrom needle size (pos + c.utf8Size) resume t := by
  rw [indexesFrom, isPrefixOf_cons_of_not_mem hc, List.isEmpty_eq_false_iff.mpr hne, Bool.and_false,
    if_neg Bool.false_ne_true]

/-- Occurrences are at the same places. -/
theorem indexesFrom_crlf (hn : Breakless needle) (hne : needle ≠ []) (pre rest : Text) (ht : t = pre ++ rest)
    {resume resume' : Nat} (hresume : Moves t resume resume') :
    List.Forall₂ (Moves t) (indexesFrom needle (byteSize needle) (byteSize pre) resume rest)
      (indexesFrom needle (byteSize needle) (byteSize (crlf pre)) resume' (crlf rest)) := by
  induction rest generalizing pre resume resume' with
  | nil => exact .nil
  | cons c rest ih =>
    have hpos : Moves t (byteSize pre) (byteSize (crlf pre)) := ⟨pre, c :: rest, ht, rfl, rfl⟩
    have hle := hresume.le_iff hpos
    have hgo {r r' : Nat} (hr : Moves t r r') := ih (pre ++ [c]) (by simpa using ht) hr
    by_cases hc : c = '\n'
    · subst hc
      rw [crlf_feed, indexesFrom_cons_of_not_mem hne hn.1, indexesFrom_cons_of_not_mem hne hn.2,
        indexesFrom_cons_of_not_mem hne hn.1]
      simpa [byteSize_singleton, byteSize_cons, Nat.add_assoc] using hgo hresume
    · have hprefix := isPrefixOf_crlf hn (c :: rest)
      have hdecide : decide (resume' ≤ byteSize (crlf pre)) = decide (resume ≤ byteSize pre) :=
        decide_eq_decide.mpr hle.symm
      simp only [crlf_append, crlf_cons hc, crlf_nil, byteSize_append, byteSize_singleton] at hgo
      rw [crlf_cons hc] at hprefix ⊢
      simp only [indexesFrom, hprefix, hdecide]
      split
      · rename_i h
        obtain ⟨post, hpost⟩ := List.isPrefixOf_iff_prefix.mp (Bool.and_eq_true_iff.mp h).2
        refine .cons hpos (hgo ⟨pre ++ needle, post, by rw [ht, ← hpost, List.append_assoc], ?_, ?_⟩)
        · rw [byteSize_append]
        · rw [crlf_append, crlf_of_not_mem hn.1, byteSize_append]
      · exact hgo hresume

theorem indexes_crlf (hn : Breakless needle) (hne : needle ≠ []) (t : Text) :
    List.Forall₂ (Moves t) (indexes needle t) (indexes needle (crlf t)) :=
  indexesFrom_crlf hn hne [] t rfl (moves_start t)

/-! ## Words -/

theorem after?_crlf (hn : Breakless needle) (t : Text) : after? needle (crlf t) = (after? needle t).map crlf := by
  induction needle generalizing t with
  | nil => rfl
  | cons a needle ih =>
    cases t with
    | nil => rfl
    | cons c t =>
      by_cases hc : c = '\n'
      · subst hc
        rw [crlf_feed, after?, after?, if_neg hn.head_ne.1, if_neg hn.head_ne.2]
        rfl
      · rw [crlf_cons hc, after?, after?]
        split
        · exact ih hn.tail t
        · rfl

theorem after?_cons_of_not_mem (hne : needle ≠ []) (hc : c ∉ needle) (t : Text) : after? needle (c :: t) = none := by
  cases needle with
  | nil => exact absurd rfl hne
  | cons a needle => exact if_neg fun e => hc (by simp [e])

theorem mentionsFrom_cons_of_not_mem (inWord : Char → Bool) (hne : needle ≠ []) (hc : c ∉ needle) (prev : Option Char)
    (t : Text) : mentionsFrom inWord needle prev 0 (c :: t) = mentionsFrom inWord needle (some c) 0 t := by
  rw [mentionsFrom, if_pos rfl, after?_cons_of_not_mem hne hc]

/-- The rest of an occurrence holds no line feed, so the search does not skip one. -/
theorem mentionsFrom_crlf {inWord : Char → Bool} (hw : inWord '\r' = false ∧ inWord '\n' = false)
    (hn : Breakless needle) (hne : needle ≠ []) (prev : Option Char) {skip : Nat} (hskip : '\n' ∉ t.take skip) :
    mentionsFrom inWord needle prev skip (crlf t) = mentionsFrom inWord needle prev skip t := by
  induction t generalizing prev skip with
  | nil => rfl
  | cons c t ih =>
    by_cases hc : c = '\n'
    · subst hc
      obtain rfl : skip = 0 := by
        cases skip with
        | zero => rfl
        | succ skip => simp at hskip
      rw [crlf_feed, mentionsFrom_cons_of_not_mem inWord hne hn.2, mentionsFrom_cons_of_not_mem inWord hne hn.1,
        mentionsFrom_cons_of_not_mem inWord hne hn.1]
      exact ih (some '\n') (by simp)
    · cases skip with
      | succ skip =>
        rw [crlf_cons hc, mentionsFrom, mentionsFrom]
        exact ih (some c) (by simpa using fun h => hskip (List.mem_cons_of_mem c h))
      | zero =>
        have hafter := after?_crlf hn (c :: t)
        rw [crlf_cons hc] at hafter ⊢
        rw [mentionsFrom, mentionsFrom, hafter]
        cases h : after? needle (c :: t) with
        | none => exact ih (some c) (by simp)
        | some rest =>
          have hlater : '\n' ∉ t.take (needle.length - 1) := by
            have ht := after?_eq_some_iff.mp h
            cases needle with
            | nil => exact absurd rfl hne
            | cons a needle =>
              rw [List.cons_append, List.cons.injEq] at ht
              rw [ht.2, List.length_cons, Nat.add_sub_cancel, List.take_left]
              exact hn.tail.1
          simp only [Option.map_some, if_true, head?_any_crlf (hw.1.trans hw.2.symm), ih (some c) hlater]

theorem mentions_crlf (hn : Breakless needle) (t : Text) : mentions (crlf t) needle = mentions t needle := by
  unfold mentions
  cases needle with
  | nil => rfl
  | cons a needle =>
    rw [mentionsWord, mentionsWord, mentionsFrom_crlf (by decide) hn (List.cons_ne_nil a needle) none (by simp)]

/-! ## Blanks -/

section Blanks

variable {p : Char → Bool}

theorem takeWhile_crlf (hr : p '\r' = true) (hn : p '\n' = true) (t : Text) :
    (crlf t).takeWhile p = crlf (t.takeWhile p) := by
  induction t with
  | nil => rfl
  | cons c t ih =>
    by_cases hc : c = '\n'
    · subst hc
      simp [hr, hn, ih]
    · rw [crlf_cons hc, List.takeWhile_cons, List.takeWhile_cons, ih]
      split
      · rw [crlf_cons hc]
      · rfl

theorem dropWhile_crlf (hr : p '\r' = true) (hn : p '\n' = true) (t : Text) :
    (crlf t).dropWhile p = crlf (t.dropWhile p) := by
  induction t with
  | nil => rfl
  | cons c t ih =>
    by_cases hc : c = '\n'
    · subst hc
      simp [hr, hn, ih]
    · rw [crlf_cons hc, List.dropWhile_cons, List.dropWhile_cons, ih]
      split
      · rfl
      · rw [crlf_cons hc]

end Blanks

theorem trimStart_crlf (t : Text) : trimStart (crlf t) = crlf (trimStart t) := dropWhile_crlf (by decide) (by decide) t

/-- What is dropped in front is the indent, in both texts. -/
theorem exists_lead {u : Text} (h : trimStart t = c :: u) :
    ∃ lead, c.isBlank = false ∧ t = lead ++ c :: u ∧ indent t = byteSize lead ∧
      indent (crlf t) = byteSize (crlf lead) := by
  refine ⟨t.takeWhile Char.isBlank, ?_, ?_, rfl, ?_⟩
  · have hhead := List.head?_dropWhile_not Char.isBlank t
    rw [← trimStart, h] at hhead
    simpa using hhead
  · rw [← h, trimStart, List.takeWhile_append_dropWhile]
  · rw [indent, takeWhile_crlf (by decide) (by decide)]

theorem trimEnd_crlf (t : Text) : trimEnd (crlf t) = crlf (trimEnd t) := by
  induction t using List.reverseRecOn with
  | nil => rfl
  | append_singleton t c ih =>
    by_cases hc : c = '\n'
    · subst hc
      have hfeed : crlf (t ++ ['\n']) = crlf t ++ ['\r'] ++ ['\n'] := by simp
      rw [hfeed, trimEnd_concat, if_pos (by decide), trimEnd_concat, if_pos (by decide), trimEnd_concat,
        if_pos (by decide), ih]
    · have hcons : crlf (t ++ [c]) = crlf t ++ [c] := by simp [crlf_cons hc]
      rw [hcons, trimEnd_concat, trimEnd_concat, ih]
      split
      · rfl
      · exact hcons.symm

theorem trim_crlf (t : Text) : trim (crlf t) = crlf (trim t) := by
  rw [trim, trimStart_crlf, trimEnd_crlf, trim]

/-! ## Brackets -/

variable {n n' : Nat}

/-- The closing bracket is at the same place. -/
theorem closeFrom_crlf {opener closer : Char} (ho : opener ≠ '\n' ∧ opener ≠ '\r') (hc : closer ≠ '\n' ∧ closer ≠ '\r')
    (depth : Nat) (pre rest : Text) (ht : t = pre ++ rest) :
    Option.Rel (MovesAt t closer) (closeFrom opener closer depth (byteSize pre) rest)
      (closeFrom opener closer depth (byteSize (crlf pre)) (crlf rest)) := by
  induction rest generalizing pre depth with
  | nil => exact .none
  | cons x rest ih =>
    have hgo (depth : Nat) := ih depth (pre ++ [x]) (by simpa using ht)
    by_cases hx : x = '\n'
    · subst hx
      rw [crlf_feed, closeFrom, if_neg ho.1.symm, if_neg hc.1.symm, closeFrom, if_neg ho.2.symm, if_neg hc.2.symm,
        closeFrom, if_neg ho.1.symm, if_neg hc.1.symm]
      simpa [byteSize_cons, Nat.add_assoc] using hgo depth
    · simp only [crlf_append, crlf_cons hx, crlf_nil, byteSize_append, byteSize_singleton] at hgo
      rw [crlf_cons hx, closeFrom, closeFrom]
      split
      · exact hgo (depth + 1)
      · split
        · rename_i hcloser
          subst hcloser
          split
          · exact .some ⟨pre, rest, ht, rfl, rfl⟩
          · exact hgo (depth - 1)
        · exact hgo depth

/-- The first occurrence of a character is at the same place. -/
theorem findFrom?_crlf {p : Char → Bool} (hr : p '\r' = false) (hn : p '\n' = false) (pre rest : Text)
    (ht : t = pre ++ rest) :
    Option.Rel (fun n n' => ∃ c, p c = true ∧ MovesAt t c n n') (findFrom? p (byteSize pre) rest)
      (findFrom? p (byteSize (crlf pre)) (crlf rest)) := by
  induction rest generalizing pre with
  | nil => exact .none
  | cons x rest ih =>
    have hgo := ih (pre ++ [x]) (by simpa using ht)
    by_cases hx : x = '\n'
    · subst hx
      rw [crlf_feed, findFrom?, hn, findFrom?, hr, findFrom?, hn]
      simpa [byteSize_cons, Nat.add_assoc] using hgo
    · simp only [crlf_append, crlf_cons hx, crlf_nil, byteSize_append, byteSize_singleton] at hgo
      rw [crlf_cons hx, findFrom?, findFrom?]
      split
      · rename_i hp
        exact .some ⟨x, hp, pre, rest, ht, rfl, rfl⟩
      · exact hgo

theorem findAfter_crlf (hc : c ≠ '\n' ∧ c ≠ '\r') (h : Moves t n n') :
    Option.Rel (MovesAt t c) (findAfter t n c) (findAfter (crlf t) n' c) := by
  obtain ⟨pre, rest, rfl, rfl, rfl⟩ := h
  rw [findAfter, findAfter, crlf_append, dropBytes?_append, dropBytes?_append]
  refine rel_imp (findFrom?_crlf ?_ ?_ pre rest rfl) ?_
  · exact beq_eq_false_iff_ne.mpr hc.2.symm
  · exact beq_eq_false_iff_ne.mpr hc.1.symm
  · rintro n n' ⟨d, hd, hm⟩
    exact eq_of_beq hd ▸ hm

/-- The characters that close brackets. -/
theorem closer?_ne {x closer : Char} (h : closer? x = some closer) :
    (x ≠ '\n' ∧ x ≠ '\r') ∧ closer ≠ '\n' ∧ closer ≠ '\r' ∧ closer.utf8Size = 1 := by
  unfold closer? at h
  split at h <;> cases h <;> decide

/-- Brackets end at the same places. -/
theorem blockEnd_crlf (h : Moves t n n') :
    Option.Rel (fun m m' => ∃ closer, closer ≠ '\n' ∧ closer.utf8Size = 1 ∧ MovesAt t closer m m') (blockEnd t n)
      (blockEnd (crlf t) n') := by
  obtain ⟨pre, rest, rfl, rfl, rfl⟩ := h
  rw [blockEnd, blockEnd, crlf_append, dropBytes?_append, dropBytes?_append]
  cases rest with
  | nil => exact .none
  | cons x rest =>
    by_cases hx : x = '\n'
    · subst hx
      exact .none
    · rw [crlf_cons hx]
      dsimp only
      cases hcl : closer? x with
      | none => exact .none
      | some closer =>
        obtain ⟨hxne, hne, hne', hsize⟩ := closer?_ne hcl
        have hclose := closeFrom_crlf hxne ⟨hne, hne'⟩ 0 pre (x :: rest) rfl
        rw [crlf_cons hx] at hclose
        exact rel_imp hclose fun m m' hm => ⟨closer, hne, hsize, hm⟩

end Checkup.Text
