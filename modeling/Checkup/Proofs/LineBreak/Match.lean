import Checkup.Proofs.LineBreak.Fits
import Checkup.Proofs.LineBreak.Search
import Checkup.Proofs.Pattern.Shape

/-!
# Matches with and without carriage returns

The matches of a pattern in a text and in the text with carriage returns are the same, one by one, if the pattern is
solid before anything (`find_crlf`, `findAll_crlf`): they start and end at the same places, and so do their groups
(`Match.Twin`). What a match or a group takes is the same text if it holds no line feed.
-/

namespace Checkup

open Text (crlf crlf_nil crlf_cons crlf_feed crlf_append Moves MovesAt)

variable {t : Text} {free : List Nat} {p : Pattern}

/-! ## Parts of the two texts -/

/-- Whether `x'` is the part `x` of the text in the text with carriage returns. -/
def Capture.Twin (t : Text) (x x' : Capture) : Prop :=
  ∃ pre w post, t = pre ++ (w ++ post) ∧ x = ⟨Text.byteSize pre, w⟩ ∧ x' = ⟨Text.byteSize (crlf pre), crlf w⟩

theorem Capture.Twin.start {x x' : Capture} (h : Twin t x x') : Moves t x.start x'.start := by
  obtain ⟨pre, w, post, ht, rfl, rfl⟩ := h
  exact ⟨pre, w ++ post, ht, rfl, rfl⟩

theorem Capture.Twin.stop {x x' : Capture} (h : Twin t x x') : Moves t x.stop x'.stop := by
  obtain ⟨pre, w, post, ht, rfl, rfl⟩ := h
  exact ⟨pre ++ w, post, by simpa using ht, by simp [Capture.stop], by simp [Capture.stop]⟩

theorem Capture.Twin.text {x x' : Capture} (h : Twin t x x') : x'.text = crlf x.text := by
  obtain ⟨pre, w, post, ht, rfl, rfl⟩ := h
  rfl

/-- The parts between the same places, also if the second is not behind the first. -/
theorem Capture.twin_between {a a' b b' : Cursor} (ha : Cursor.Twin t a a') (hb : Cursor.Twin t b b') :
    Twin t (.between a b) (.between a' b') := by
  obtain ⟨pre, rest, rfl, rfl, rfl⟩ := ha
  obtain ⟨pre₂, rest₂, h, rfl, rfl⟩ := hb
  rcases List.append_eq_append_iff.mp h with ⟨w, rfl, rfl⟩ | ⟨w, rfl, rfl⟩
  · refine ⟨pre, w, rest₂, rfl, Capture.between_behind pre w rest₂, ?_⟩
    rw [crlf_append, crlf_append]
    exact Capture.between_behind _ _ _
  · refine ⟨pre₂ ++ w, [], rest, rfl, ?_, ?_⟩
    · simp [between]
    · simp [between]

/-- Whether `m'` is the match `m` of the pattern in the text with carriage returns. -/
structure Match.Twin (p : Pattern) (free : List Nat) (t : Text) (m m' : Match) : Prop where
  isMatch : ∃ pre w post g, m.Of p t pre w post g
  whole : Capture.Twin t m.toCapture m'.toCapture
  groups : List.Forall₂ (fun x x' => x.1 = x'.1 ∧ (x.1 ∈ free ∨ Capture.Twin t x.2 x'.2)) m.groups m'.groups

namespace Match.Twin

variable {m m' : Match}

theorem start (h : Match.Twin p free t m m') : Moves t m.start m'.start := h.whole.start

theorem stop (h : Match.Twin p free t m m') : Moves t m.stop m'.stop := h.whole.stop

/-- Groups take part in both matches or in none of them. -/
theorem group? (h : Match.Twin p free t m m') {n : Nat} (hn : n ∉ free) :
    Option.Rel (Capture.Twin t) (m.group? n) (m'.group? n) := by
  have hgroups := h.groups
  unfold Match.group?
  generalize m.groups = l, m'.groups = l' at hgroups
  induction hgroups with
  | nil => exact Option.Rel.none
  | @cons x x' l l' hx _ ih =>
    obtain ⟨i, c⟩ := x
    obtain ⟨i', c'⟩ := x'
    obtain ⟨rfl, hc⟩ := hx
    rw [List.lookup_cons, List.lookup_cons]
    by_cases hi : n = i
    · subst hi
      simpa using Option.Rel.some (hc.resolve_left hn)
    · rw [beq_false_of_ne hi]
      exact ih

/-- The first characters that are no blanks are at the same place. -/
theorem inkStart (h : Match.Twin p free t m m') : Moves t m.inkStart m'.inkStart := by
  obtain ⟨pre, w, post, rfl, hw, hw'⟩ := h.whole
  refine ⟨pre ++ w.takeWhile Char.isBlank, w.dropWhile Char.isBlank ++ post, ?_, ?_, ?_⟩
  · rw [List.append_assoc, ← List.append_assoc (w.takeWhile _), List.takeWhile_append_dropWhile]
  · rw [Match.inkStart, hw, Text.indent, Text.byteSize_append]
  · rw [Match.inkStart, hw', Text.indent, Text.takeWhile_crlf (by decide) (by decide), crlf_append,
      Text.byteSize_append]

/-- A group whose texts hold no line feed takes the same text at the same place. -/
theorem group_same (h : Match.Twin p free t m m') {n : Nat} (hn : n ∉ free)
    (hp : p.eachGroup n (Pattern.within ['\n']) = true) :
    Option.Rel (fun c c' => c'.text = c.text ∧ Moves t c.start c'.start) (m.group? n) (m'.group? n) := by
  have hrel := h.group? hn
  obtain ⟨pre, w, post, g, hof⟩ := h.isMatch
  cases hc : m.group? n with
  | none =>
    rw [hc] at hrel
    rw [eq_none_of_rel hrel]
    exact .none
  | some c =>
    rw [hc] at hrel
    obtain ⟨c', hc', htwin⟩ := eq_some_of_rel hrel
    obtain ⟨q, pre', w', post', g₁, g₂, hq, hw, _, rfl⟩ := hof.group? _ hc hp
    have hfeed : '\n' ∉ w' := fun hx => Pattern.within_takes hq hw '\n' hx (by simp)
    rw [hc']
    exact .some ⟨by rw [htwin.text, Text.crlf_of_not_mem hfeed], htwin.start⟩

/-- What the match took, and what the other one did. -/
theorem whole_of (h : Match.Twin p free t m m') :
    ∃ pre w post g, m.Of p t pre w post g ∧ m'.toCapture = ⟨Text.byteSize (crlf pre), crlf w⟩ := by
  obtain ⟨pre, w, post, g, hof⟩ := h.isMatch
  obtain ⟨pre₂, w₂, post₂, ht, hm, hm'⟩ := h.whole
  obtain ⟨hstart, rfl⟩ := Capture.mk.inj (hm.symm.trans (congrArg Match.toCapture hof.eq))
  obtain ⟨rfl, _⟩ := Text.eq_of_byteSize_eq (ht.symm.trans hof.text_eq) hstart
  exact ⟨_, _, post, g, hof, hm'⟩

/-- The first character is at the same place. -/
theorem first (h : Match.Twin p free t m m') (hp : p.opens ['\n'] = true) :
    ∃ c, c ≠ '\n' ∧ MovesAt t c m.start m'.start := by
  obtain ⟨pre, w, post, g, hof, hm'⟩ := h.whole_of
  obtain ⟨c, w, rfl, hc⟩ := Pattern.opens_takes hp hof.takes
  exact ⟨c, by simpa using hc, pre, w ++ post, hof.text_eq, by rw [hof.eq], by rw [hm']⟩

/-- The last character is at the same place. -/
theorem last (h : Match.Twin p free t m m') {c : Char} (hp : p.EndsWith c) (hc : c.utf8Size = 1) (hn : c ≠ '\n') :
    MovesAt t c (m.stop - 1) (m'.stop - 1) := by
  obtain ⟨pre, w, post, g, hof, hm'⟩ := h.whole_of
  obtain ⟨w, rfl⟩ := Pattern.endsWith_takes hp hof.takes
  refine ⟨pre ++ w, post, by rw [hof.text_eq]; simp, ?_, ?_⟩
  · rw [Capture.stop, hof.eq]
    simp [Text.byteSize_singleton, hc]
  · rw [Capture.stop, hm']
    simp [crlf_cons hn, Text.byteSize_singleton, hc]

end Match.Twin

/-! ## Searches -/

namespace Pattern

open Cursor (behind twin_end twin_char)

/-- **Matches from the same place** are the same. -/
theorem matchAt_rel (free : List Nat) (hp : p.hold free .plain = some .solid) {c c' : Cursor}
    (hc : Cursor.Twin t c c') :
    Option.Rel (Match.Twin p free t) (p.matchAt c) (p.matchAt c') := by
  have hrel : Option.Rel (fun m m' : Match => Capture.Twin t m.toCapture m'.toCapture ∧
      List.Forall₂ (fun x x' => x.1 = x'.1 ∧ (x.1 ∈ free ∨ Capture.Twin t x.2 x'.2)) m.groups m'.groups)
      (p.matchAt c) (p.matchAt c') := by
    refine (hold_fits hp ⟨fun x x' g g' hx hg => ?_, trivial⟩).twin c c' [] [] hc .nil
    refine Option.Rel.some ⟨Capture.twin_between hc hx, ?_⟩
    rw [List.forall₂_map_left_iff, List.forall₂_map_right_iff]
    exact hg.imp fun y y' hy => ⟨hy.1, hy.2.imp_right fun h => Capture.twin_between h.1 h.2⟩
  cases hm : p.matchAt c with
  | none =>
    rw [hm] at hrel
    rw [eq_none_of_rel hrel]
    exact Option.Rel.none
  | some m =>
    rw [hm] at hrel
    obtain ⟨m', hm', hwhole, hgroups⟩ := eq_some_of_rel hrel
    obtain ⟨pre, rest, rfl, rfl, rfl⟩ := hc
    obtain ⟨w, post, g, hof⟩ := matchAt_of hm
    rw [hm']
    exact Option.Rel.some ⟨⟨pre, w, post, g, hof⟩, hwhole, hgroups⟩

/-- No match starts inside of a break. -/
theorem matchAt_inBreak (hp : p.hold free .plain = some .solid) {c' : Cursor} (hc : c'.InBreak) :
    p.matchAt c' = none :=
  hold_solid hp (fun h => by cases h) c' [] hc

theorem findFrom_cons (p : Pattern) (pre rest : Text) (x : Char) :
    p.findFrom pre.getLast? (Text.byteSize pre) (x :: rest) =
      (p.matchAt (behind pre (x :: rest))).or
        (p.findFrom (pre ++ [x]).getLast? (Text.byteSize (pre ++ [x])) rest) := by
  rw [findFrom, List.getLast?_concat, Text.byteSize_append, Text.byteSize_singleton]
  unfold behind
  cases p.matchAt _ <;> rfl

theorem findFrom_crlf (hp : p.hold free .plain = some .solid) (pre rest : Text) (ht : t = pre ++ rest) :
    Option.Rel (Match.Twin p free t) (p.findFrom pre.getLast? (Text.byteSize pre) rest)
      (p.findFrom (crlf pre).getLast? (Text.byteSize (crlf pre)) (crlf rest)) := by
  refine rel_of_next (fun c => p.findFrom c.prev c.pos c.rest) (fun c => p.findFrom c.prev c.pos c.rest)
    (matchAt_rel free hp (twin_end t)) (fun pre x rest ht hx hnext => ?_) (fun pre rest ht hnext => ?_) pre rest ht
  · have hhere := matchAt_rel free hp (twin_char ht hx)
    dsimp only [behind] at hnext ⊢
    rw [findFrom_cons p pre, findFrom_cons p (crlf pre)]
    exact rel_or hhere hnext
  · have hhere := matchAt_rel free hp ⟨pre, '\n' :: rest, ht, rfl, rfl⟩
    have hafter : crlf (pre ++ ['\n']) = crlf pre ++ ['\r'] ++ ['\n'] := by simp
    rw [hafter] at hnext
    rw [crlf_feed] at hhere ⊢
    dsimp only [behind] at hnext ⊢
    rw [findFrom_cons p pre, findFrom_cons p (crlf pre), findFrom_cons p (crlf pre ++ ['\r']),
      matchAt_inBreak hp ⟨crlf pre, crlf rest, rfl⟩, Option.none_or]
    exact rel_or hhere hnext

/-- **The first match** is the same. -/
theorem find_crlf (free : List Nat) (hp : p.hold free .plain = some .solid) (t : Text) :
    Option.Rel (Match.Twin p free t) (p.find t) (p.find (crlf t)) := findFrom_crlf hp [] t rfl

/-- Inside of a break the search only goes on. -/
theorem findAllFrom_inBreak (hp : p.hold free .plain = some .solid) (pre rest : Text) (resume : Nat) :
    p.findAllFrom (pre ++ ['\r']).getLast? (Text.byteSize (pre ++ ['\r'])) resume ('\n' :: rest) =
      p.findAllFrom (pre ++ ['\r'] ++ ['\n']).getLast? (Text.byteSize (pre ++ ['\r'] ++ ['\n'])) resume rest := by
  rw [findAllFrom_cons, matchAt_inBreak hp ⟨pre, rest, rfl⟩]
  split <;> rfl

/-- So the search in the text with carriage returns takes the steps of the other one. -/
theorem findAllFrom_crlf_cons (hp : p.hold free .plain = some .solid) (pre rest : Text) (resume : Nat) (x : Char) :
    p.findAllFrom (crlf pre).getLast? (Text.byteSize (crlf pre)) resume (crlf (x :: rest)) =
      if Text.byteSize (crlf pre) < resume then
        p.findAllFrom (crlf (pre ++ [x])).getLast? (Text.byteSize (crlf (pre ++ [x]))) resume (crlf rest)
      else
        match p.matchAt (behind (crlf pre) (crlf (x :: rest))) with
        | some m =>
          m :: p.findAllFrom (crlf (pre ++ [x])).getLast? (Text.byteSize (crlf (pre ++ [x]))) m.stop (crlf rest)
        | none =>
          p.findAllFrom (crlf (pre ++ [x])).getLast? (Text.byteSize (crlf (pre ++ [x]))) resume (crlf rest) := by
  by_cases hx : x = '\n'
  · subst hx
    have hafter : crlf (pre ++ ['\n']) = crlf pre ++ ['\r'] ++ ['\n'] := by simp
    have hstep := findAllFrom_cons p (crlf pre) ('\n' :: crlf rest) resume '\r'
    simp only [findAllFrom_inBreak hp] at hstep
    rw [hafter, crlf_feed]
    exact hstep
  · have hafter : crlf (pre ++ [x]) = crlf pre ++ [x] := by simp [crlf_cons hx]
    rw [hafter, crlf_cons hx]
    exact findAllFrom_cons p (crlf pre) (crlf rest) resume x

theorem findAllFrom_crlf (hp : p.hold free .plain = some .solid) (pre rest : Text) (ht : t = pre ++ rest)
    {resume resume' : Nat} (hresume : Moves t resume resume') :
    List.Forall₂ (Match.Twin p free t) (p.findAllFrom pre.getLast? (Text.byteSize pre) resume rest)
      (p.findAllFrom (crlf pre).getLast? (Text.byteSize (crlf pre)) resume' (crlf rest)) := by
  induction rest generalizing pre resume resume' with
  | nil =>
    have hpos : Moves t (Text.byteSize pre) (Text.byteSize (crlf pre)) := ⟨pre, [], ht, rfl, rfl⟩
    have hhere := matchAt_rel free hp ⟨pre, [], ht, rfl, rfl⟩
    have hlt := hpos.lt_iff hresume
    rw [crlf_nil] at hhere ⊢
    rw [findAllFrom, findAllFrom]
    by_cases h : Text.byteSize pre < resume
    · rw [if_pos h, if_pos (hlt.mp h)]
      exact .nil
    · rw [if_neg h, if_neg fun h' => h (hlt.mpr h')]
      change List.Forall₂ _ (p.matchAt (behind pre [])).toList (p.matchAt (behind (crlf pre) [])).toList
      generalize p.matchAt (behind (crlf pre) []) = m' at hhere
      generalize p.matchAt (behind pre []) = m at hhere
      cases hhere with
      | none => exact .nil
      | some hm => exact .cons hm .nil
  | cons x rest ih =>
    have ht' : t = (pre ++ [x]) ++ rest := by simpa using ht
    have hpos : Moves t (Text.byteSize pre) (Text.byteSize (crlf pre)) := ⟨pre, x :: rest, ht, rfl, rfl⟩
    have hhere := matchAt_rel free hp ⟨pre, x :: rest, ht, rfl, rfl⟩
    -- places keep their order, so the match before is over at both places or at neither
    have hlt := hpos.lt_iff hresume
    have hgo {r r' : Nat} (hr : Moves t r r') := ih (pre ++ [x]) ht' hr
    rw [findAllFrom_crlf_cons hp, findAllFrom_cons]
    by_cases h : Text.byteSize pre < resume
    · rw [if_pos h, if_pos (hlt.mp h)]
      exact hgo hresume
    · rw [if_neg h, if_neg fun h' => h (hlt.mpr h')]
      generalize p.matchAt (behind (crlf pre) (crlf (x :: rest))) = m' at hhere
      generalize p.matchAt (behind pre (x :: rest)) = m at hhere
      cases hhere with
      | none => exact hgo hresume
      | some hm => exact .cons hm (hgo hm.stop)

/-- **All matches** are the same, one by one. -/
theorem findAll_crlf (free : List Nat) (hp : p.hold free .plain = some .solid) (t : Text) :
    List.Forall₂ (Match.Twin p free t) (p.findAll t) (p.findAll (crlf t)) :=
  findAllFrom_crlf hp [] t rfl (Text.moves_start t)

/-- Whether there is a match is the same. -/
theorem occurs_crlf (hp : p.hold [] .plain = some .solid) (t : Text) : p.occurs (crlf t) = p.occurs t := by
  have h := find_crlf [] hp t
  unfold occurs
  generalize p.find (crlf t) = m', p.find t = m at h
  cases h with
  | none => rfl
  | some _ => rfl

end Pattern

end Checkup
