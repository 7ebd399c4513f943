import Checkup.Proofs.Text.Position
import Checkup.Source.File

/-!
# Carriage returns before line feeds

`Text.crlf` puts a carriage return before each line feed. What depends on a text only by its lines does not change
(`lines_crlf`), and a place of a text moves on by the carriage returns before it.

* `Text.Moves t n n'`: the place at offset `n` of the text is at offset `n'` of the other one. Places keep their order
  (`Moves.lt_iff`), their line and column (`Moves.lineCol_eq`), and what stands between them (`Moves.slice_eq`).
* `Text.MovesAt t c n n'`: so does a place before the character `c`.
-/

namespace Checkup

/-- The text with a carriage return before each line feed. -/
def Text.crlf (t : Text) : Text := expand (fun c => if c = '\n' then ['\r', '\n'] else [c]) t

/-- The file with a carriage return before each line feed. -/
def SourceFile.crlf (f : SourceFile) : SourceFile := { f with content := Text.crlf f.content }

namespace Text

variable {s t pre rest w : Text} {c : Char}

@[simp] theorem crlf_nil : crlf [] = [] := rfl

@[simp] theorem crlf_feed (t : Text) : crlf ('\n' :: t) = '\r' :: '\n' :: crlf t := rfl

theorem crlf_cons (h : c ≠ '\n') (t : Text) : crlf (c :: t) = c :: crlf t := by
  simp [crlf, expand, h]

@[simp] theorem crlf_append (s t : Text) : crlf (s ++ t) = crlf s ++ crlf t := List.flatMap_append

theorem crlf_of_not_mem (h : '\n' ∉ t) : crlf t = t := by
  induction t with
  | nil => rfl
  | cons c t ih =>
    rw [List.mem_cons, not_or] at h
    rw [crlf_cons (Ne.symm h.1), ih h.2]

@[simp] theorem crlf_eq_nil : crlf t = [] ↔ t = [] := by
  cases t with
  | nil => simp
  | cons c t =>
    by_cases hc : c = '\n'
    · subst hc; simp
    · simp [crlf_cons hc]

/-- The last character does not change. -/
theorem getLast?_crlf (t : Text) : (crlf t).getLast? = t.getLast? := by
  induction t with
  | nil => rfl
  | cons c t ih =>
    cases t with
    | nil =>
      by_cases hc : c = '\n'
      · subst hc; rfl
      · rw [crlf_cons hc]; rfl
    | cons d t =>
      obtain ⟨x, u, hx⟩ : ∃ x u, crlf (d :: t) = x :: u := List.exists_cons_of_ne_nil (by simp)
      by_cases hc : c = '\n'
      · subst hc
        rw [crlf_feed, List.getLast?_cons_cons, hx, List.getLast?_cons_cons, ← hx, ih, List.getLast?_cons_cons]
      · rw [crlf_cons hc, hx, List.getLast?_cons_cons, ← hx, ih, List.getLast?_cons_cons]

/-- The first character stays in a class that does not tell the two characters of a break apart. -/
theorem head?_any_crlf {p : Char → Bool} (h : p '\r' = p '\n') (t : Text) :
    (crlf t).head?.any p = t.head?.any p := by
  cases t with
  | nil => rfl
  | cons c t =>
    by_cases hc : c = '\n'
    · subst hc
      exact h
    · rw [crlf_cons hc]
      rfl

/-! ## Lines -/

theorem linesFrom_crlf {acc : Text} (hacc : acc.head? ≠ some '\r') (ht : '\r' ∉ t) :
    linesFrom acc (crlf t) = linesFrom acc t := by
  induction t generalizing acc with
  | nil => rfl
  | cons c t ih =>
    rw [List.mem_cons, not_or] at ht
    by_cases hc : c = '\n'
    · subst hc
      have hclose : closeLine acc = acc.reverse := by
        unfold closeLine
        split
        · exact absurd rfl hacc
        · rfl
      rw [crlf_feed, linesFrom, if_neg (by decide), linesFrom, if_pos rfl, ih (by simp) ht.2, linesFrom, if_pos rfl,
        hclose]
      rfl
    · rw [crlf_cons hc, linesFrom, if_neg hc, linesFrom, if_neg hc]
      exact ih (by simpa using Ne.symm ht.1) ht.2

/-- The carriage returns belong to the breaks. -/
theorem lines_crlf (ht : '\r' ∉ t) : lines (crlf t) = lines t := linesFrom_crlf (by simp) ht

/-- A carriage return takes a column that the line feed behind it gives back. -/
theorem place_crlf (pre : Text) : place (crlf pre) = place pre := by
  unfold place
  generalize (1, 1) = lc
  induction pre generalizing lc with
  | nil => rfl
  | cons c pre ih =>
    by_cases hc : c = '\n'
    · subst hc
      rw [crlf_feed, List.foldl_cons, List.foldl_cons, List.foldl_cons, ih]
      rfl
    · rw [crlf_cons hc, List.foldl_cons, List.foldl_cons, ih]

/-! ## Places -/

/-- Whether the place at offset `n` of the text is at offset `n'` of the text with carriage returns. -/
def Moves (t : Text) (n n' : Nat) : Prop :=
  ∃ pre rest, t = pre ++ rest ∧ n = byteSize pre ∧ n' = byteSize (crlf pre)

/-- Whether it is a place before the character `c`. -/
def MovesAt (t : Text) (c : Char) (n n' : Nat) : Prop :=
  ∃ pre rest, t = pre ++ c :: rest ∧ n = byteSize pre ∧ n' = byteSize (crlf pre)

variable {a a' b b' : Nat}

theorem MovesAt.moves (h : MovesAt t c a a') : Moves t a a' := by
  obtain ⟨pre, rest, ht, ha, ha'⟩ := h
  exact ⟨pre, c :: rest, ht, ha, ha'⟩

/-- Behind a character of one byte. -/
theorem MovesAt.succ (h : MovesAt t c a a') (hc : c.utf8Size = 1) (hn : c ≠ '\n') : Moves t (a + 1) (a' + 1) := by
  obtain ⟨pre, rest, rfl, rfl, rfl⟩ := h
  refine ⟨pre ++ [c], rest, by simp, ?_, ?_⟩
  · rw [byteSize_append, byteSize_singleton, hc]
  · rw [crlf_append, crlf_cons hn, crlf_nil, byteSize_append, byteSize_singleton, hc]

theorem moves_start (t : Text) : Moves t 0 0 := ⟨[], t, rfl, rfl, rfl⟩

theorem Moves.lineCol_eq (h : Moves t a a') : lineCol (crlf t) a' = lineCol t a := by
  obtain ⟨pre, rest, rfl, rfl, rfl⟩ := h
  rw [crlf_append, lineCol_append, lineCol_append, place_crlf]

theorem byteSize_crlf_pos (h : w ≠ []) : 0 < byteSize (crlf w) := byteSize_pos fun e => h (crlf_eq_nil.mp e)

/-- Places keep their order. -/
theorem Moves.lt_iff (ha : Moves t a a') (hb : Moves t b b') : a < b ↔ a' < b' := by
  obtain ⟨p, r, rfl, rfl, rfl⟩ := ha
  obtain ⟨q, s, h, rfl, rfl⟩ := hb
  rcases List.append_eq_append_iff.mp h with ⟨w, rfl, rfl⟩ | ⟨w, rfl, rfl⟩
  · cases w with
    | nil => simp
    | cons c w =>
      have := byteSize_pos (List.cons_ne_nil c w)
      have := byteSize_crlf_pos (List.cons_ne_nil c w)
      simp only [crlf_append, byteSize_append]
      omega
  · simp only [crlf_append, byteSize_append]
    omega

theorem Moves.le_iff (ha : Moves t a a') (hb : Moves t b b') : a ≤ b ↔ a' ≤ b' := by
  have := hb.lt_iff ha
  omega

theorem Moves.eq_iff (ha : Moves t a a') (hb : Moves t b b') : a = b ↔ a' = b' := by
  have := ha.lt_iff hb
  have := hb.lt_iff ha
  omega

theorem Moves.min (ha : Moves t a a') (hb : Moves t b b') : Moves t (min a b) (min a' b') := by
  have h := ha.le_iff hb
  rcases Nat.le_total a b with hab | hab
  · rwa [Nat.min_eq_left hab, Nat.min_eq_left (h.mp hab)]
  · rwa [Nat.min_eq_right hab, Nat.min_eq_right ((hb.le_iff ha).mp hab)]

theorem Moves.dropBytes_eq (h : Moves t a a') : dropBytes a' (crlf t) = crlf (dropBytes a t) := by
  obtain ⟨pre, rest, rfl, rfl, rfl⟩ := h
  rw [crlf_append, dropBytes_append, dropBytes_append]

theorem Moves.takeBytes_eq (h : Moves t a a') : takeBytes a' (crlf t) = crlf (takeBytes a t) := by
  obtain ⟨pre, rest, rfl, rfl, rfl⟩ := h
  rw [crlf_append, takeBytes_append, takeBytes_append]

/-- What stands between two places gets its own carriage returns. -/
theorem Moves.slice_eq (ha : Moves t a a') (hb : Moves t b b') : slice (crlf t) a' b' = crlf (slice t a b) := by
  have hle := ha.le_iff hb
  by_cases hab : a ≤ b
  · obtain ⟨p, r, rfl, rfl, rfl⟩ := ha
    obtain ⟨q, s, h, rfl, rfl⟩ := hb
    have hq : ∃ w, q = p ++ w ∧ r = w ++ s := by
      rcases List.append_eq_append_iff.mp h with ⟨w, rfl, rfl⟩ | ⟨w, rfl, rfl⟩
      · exact ⟨w, rfl, rfl⟩
      · have hw : w = [] := byteSize_eq_zero.mp (by rw [byteSize_append] at hab; omega)
        subst hw
        exact ⟨[], by simp, by simp⟩
    obtain ⟨w, rfl, rfl⟩ := hq
    rw [crlf_append, crlf_append, crlf_append, byteSize_append, byteSize_append, slice_append, slice_append]
  · rw [slice_of_le (by omega), slice_of_le (by omega), crlf_nil]

/-- A place between two others is as far behind the first one as in what stands between them. -/
theorem Moves.add {stop k k' : Nat} (ha : Moves t a a') (hk : Moves (slice t a stop) k k') :
    Moves t (a + k) (a' + k') := by
  obtain ⟨p, r, rfl, rfl, rfl⟩ := ha
  obtain ⟨tail, hr⟩ := exists_slice p r stop
  obtain ⟨q, s, hs, rfl, rfl⟩ := hk
  refine ⟨p ++ q, s ++ tail, ?_, by rw [byteSize_append], by rw [crlf_append, byteSize_append]⟩
  rw [hs] at hr
  rw [hr, List.append_assoc, List.append_assoc]

end Text

end Checkup
