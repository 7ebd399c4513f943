import Checkup.Proofs.Pattern.Search

/-!
# The search for all matches, stretch by stretch

From a place where the search for all matches may find the next one (`findAllBehind`), it passes over a stretch in which
no match starts (`findAllBehind_append`), and it takes a match and goes on behind it (`findAllBehind_match`). So the
matches in a text are known once the text is cut into such stretches.
-/

namespace Checkup.Pattern

open Cursor (behind)

variable {q : Pattern} {pre rest u v w : Text} {x : Char} {m : Match} {resume : Nat}

/-- The matches in what follows a place. -/
def findAllBehind (q : Pattern) (pre rest : Text) : List Match :=
  q.findAllFrom pre.getLast? (Text.byteSize pre) (Text.byteSize pre) rest

theorem findAll_eq_behind (q : Pattern) (t : Text) : q.findAll t = q.findAllBehind [] t := rfl

/-- Where the last match ended makes no difference behind that place. -/
theorem findAllFrom_eq_behind (h : resume ≤ Text.byteSize pre) :
    q.findAllFrom pre.getLast? (Text.byteSize pre) resume rest = q.findAllBehind pre rest := by
  induction rest generalizing pre resume with
  | nil => rw [findAllBehind, findAllFrom, findAllFrom, if_neg (by omega), if_neg (by omega)]
  | cons x rest ih =>
    have hle : Text.byteSize pre ≤ Text.byteSize (pre ++ [x]) := by rw [Text.byteSize_append]; omega
    rw [findAllBehind, findAllFrom_cons, findAllFrom_cons, if_neg (by omega), if_neg (by omega), ih (by omega), ih hle]

/-- The search goes on behind a match, not within it. -/
theorem findAllFrom_resume (q : Pattern) (pre u rest : Text) :
    q.findAllFrom pre.getLast? (Text.byteSize pre) (Text.byteSize (pre ++ u)) (u ++ rest) =
      q.findAllBehind (pre ++ u) rest := by
  induction u generalizing pre with
  | nil => rw [List.append_nil]; rfl
  | cons x u ih =>
    have hlt := Text.byteSize_lt_append pre (List.cons_ne_nil x u)
    have hstep := ih (pre ++ [x])
    rw [List.append_assoc, List.singleton_append] at hstep
    rw [List.cons_append, findAllFrom_cons, if_pos hlt, hstep]

/-- Whether no match starts in the stretch behind `pre`. -/
def Unmatched (q : Pattern) (pre u rest : Text) : Prop :=
  ∀ a c, u = a ++ c → c ≠ [] → q.matchAt (behind (pre ++ a) (c ++ rest)) = none

theorem unmatched_singleton (h : q.matchAt (behind pre (x :: rest)) = none) : q.Unmatched pre [x] rest := by
  intro a c hac hc
  rcases List.cons_eq_append_iff.mp hac with ⟨rfl, rfl⟩ | ⟨_, _, hnil⟩
  · rwa [List.append_nil]
  · exact absurd (List.append_eq_nil_iff.mp hnil.symm).2 hc

theorem Unmatched.append (hu : q.Unmatched pre u (v ++ rest)) (hv : q.Unmatched (pre ++ u) v rest) :
    q.Unmatched pre (u ++ v) rest := by
  intro a c hac hc
  rcases List.append_eq_append_iff.mp hac with ⟨b, rfl, rfl⟩ | ⟨b, rfl, rfl⟩
  · rw [← List.append_assoc]
    exact hv b c rfl hc
  · cases b with
    | nil =>
      have hstart := hv [] v rfl hc
      rwa [List.append_nil, List.append_nil] at hstart
    | cons x b =>
      rw [List.append_assoc]
      exact hu a (x :: b) rfl (List.cons_ne_nil x b)

/-- The search passes over a stretch in which no match starts. -/
theorem findAllBehind_append (h : q.Unmatched pre u rest) :
    q.findAllBehind pre (u ++ rest) = q.findAllBehind (pre ++ u) rest := by
  induction u generalizing pre with
  | nil => rw [List.nil_append, List.append_nil]
  | cons x u ih =>
    have hnone : q.matchAt (behind pre (x :: (u ++ rest))) = none := by
      have hstart := h [] (x :: u) rfl (List.cons_ne_nil x u)
      rwa [List.append_nil] at hstart
    have htail : q.Unmatched (pre ++ [x]) u rest := by
      intro a c hac hc
      have hbehind := h (x :: a) c (by rw [hac, List.cons_append]) hc
      rwa [List.append_assoc]
    have hle : Text.byteSize pre ≤ Text.byteSize (pre ++ [x]) := by rw [Text.byteSize_append]; omega
    rw [List.cons_append, findAllBehind, findAllFrom_cons, if_neg (Nat.lt_irrefl _), hnone]
    dsimp only
    rw [findAllFrom_eq_behind hle, ih htail, List.append_assoc, List.singleton_append]

/-- The search takes a match and goes on behind it. -/
theorem findAllBehind_match (hw : w ≠ []) (hm : q.matchAt (behind pre (w ++ rest)) = some m)
    (hstop : m.stop = Text.byteSize (pre ++ w)) :
    q.findAllBehind pre (w ++ rest) = m :: q.findAllBehind (pre ++ w) rest := by
  obtain ⟨x, w, rfl⟩ := List.exists_cons_of_ne_nil hw
  have hresume := findAllFrom_resume q (pre ++ [x]) w rest
  rw [List.append_assoc, List.singleton_append] at hresume
  rw [List.cons_append] at hm ⊢
  rw [findAllBehind, findAllFrom_cons, if_neg (Nat.lt_irrefl _), hm]
  dsimp only
  rw [hstop, hresume]

end Checkup.Pattern
