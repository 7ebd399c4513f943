import Checkup.Proofs.Pattern.Shape

/-!
# What a search does not miss

* `isSome_run`: where a pattern may take a text behind which the continuation succeeds, `run` finds a way to match; so
  there is a match at a place if and only if the pattern may take a text there (`isSome_matchAt_iff`).
* `Unoverlapped`: no match starts within another one. Then `findAll` lists the matches at all places
  (`mem_findAll_iff`).
* `findAll_increasing`: the matches that `findAll` lists start one behind the other.
-/

namespace Checkup.Pattern

open Cursor (behind)

variable {α : Type} {q : Pattern} {p : Char → Bool} {k : Cursor → Marks → Option α} {g g' : Marks}
  {pre w post rest t : Text} {m : Match}

/-! ## Completeness of the search -/

theorem isSome_run_many (hw : ∀ x ∈ w, p x = true) (h : (k (behind (pre ++ w) post) g).isSome) :
    ((many p).run (behind pre (w ++ post)) g k).isSome := by
  induction w generalizing pre with
  | nil =>
    rw [List.append_nil] at h
    cases post with
    | nil => rwa [List.nil_append, run_many_nil]
    | cons x post =>
      rw [List.nil_append, run_many_cons]
      split
      · rw [Option.isSome_or, h, Bool.or_true]
      · exact h
  | cons x w ih =>
    obtain ⟨hx, hw⟩ := List.forall_mem_cons.mp hw
    rw [List.cons_append, run_many_cons, if_pos hx, Option.isSome_or, ih hw (by simpa using h), Bool.true_or]

theorem isSome_run_few (hw : ∀ x ∈ w, p x = true) (h : (k (behind (pre ++ w) post) g).isSome) :
    ((few p).run (behind pre (w ++ post)) g k).isSome := by
  induction w generalizing pre with
  | nil =>
    rw [List.append_nil] at h
    cases post with
    | nil => exact h
    | cons x post => rw [List.nil_append, run_few_cons, Option.isSome_or, h, Bool.true_or]
  | cons x w ih =>
    obtain ⟨hx, hw⟩ := List.forall_mem_cons.mp hw
    rw [List.cons_append, run_few_cons, if_pos hx, Option.isSome_or, ih hw (by simpa using h), Bool.or_true]

/-- **Completeness of the search**: where there is a way to match behind which the continuation succeeds, `run` finds
one. -/
theorem isSome_run (hq : q.Takes pre w post g g') (h : (k (behind (pre ++ w) post) g').isSome) :
    (q.run (behind pre (w ++ post)) g k).isSome := by
  induction q generalizing pre w post g g' k with
  | nothing =>
    obtain ⟨rfl, rfl⟩ := hq
    simpa [run] using h
  | one p =>
    obtain ⟨⟨x, rfl, hx⟩, rfl⟩ := hq
    rw [List.singleton_append, run_one_cons, if_pos hx]
    exact h
  | many p =>
    obtain ⟨hw, rfl⟩ := hq
    exact isSome_run_many hw h
  | few p =>
    obtain ⟨hw, rfl⟩ := hq
    exact isSome_run_few hw h
  | seq a b iha ihb =>
    obtain ⟨u, v, g₁, rfl, hu, hv⟩ := hq
    rw [List.append_assoc]
    exact iha hu (ihb hv (by rwa [List.append_assoc]))
  | alt a b iha ihb =>
    rw [run_alt, Option.isSome_or, Bool.or_eq_true]
    exact hq.imp (fun hq => iha hq h) fun hq => ihb hq h
  | opt a ih =>
    rw [run_opt, Option.isSome_or, Bool.or_eq_true]
    refine hq.imp (fun hq => ih hq h) ?_
    rintro ⟨rfl, rfl⟩
    simpa using h
  | group n a ih =>
    obtain ⟨g₁, hq, rfl⟩ := hq
    exact ih hq h
  | wordBoundary =>
    obtain ⟨rfl, rfl, hc⟩ := hq
    simpa [run, hc] using h
  | lineStart =>
    obtain ⟨rfl, rfl, hc⟩ := hq
    simpa [run, hc] using h
  | textStart =>
    obtain ⟨rfl, rfl, rfl⟩ := hq
    simpa [run] using h
  | textEnd =>
    obtain ⟨rfl, rfl, rfl⟩ := hq
    simpa [run] using h

/-- There is a match at a place if and only if the pattern may take a text there. -/
theorem isSome_matchAt_iff :
    (q.matchAt (behind pre rest)).isSome ↔ ∃ w post g, rest = w ++ post ∧ q.Takes pre w post [] g := by
  constructor
  · intro h
    obtain ⟨m, hm⟩ := Option.isSome_iff_exists.mp h
    obtain ⟨w, post, g, hof⟩ := matchAt_of hm
    exact ⟨w, post, g, List.append_cancel_left hof.text_eq, hof.takes⟩
  · rintro ⟨w, post, g, rfl, hq⟩
    exact isSome_run hq rfl

/-- A search finds something where the pattern may take the start of the text. -/
theorem isSome_find (h : q.Takes [] w post [] g) : (q.find (w ++ post)).isSome := by
  have hstart : (q.matchAt (behind [] (w ++ post))).isSome := isSome_matchAt_iff.mpr ⟨w, post, g, rfl, h⟩
  generalize w ++ post = t at hstart
  cases t with
  | nil => exact hstart
  | cons c t =>
    rw [find, findFrom]
    split
    · rfl
    · rename_i hnone
      rw [show q.matchAt (behind [] (c :: t)) = none from hnone] at hstart
      cases hstart

/-! ## All matches -/

/-- Whether no match starts within another one, behind its first character. -/
def Unoverlapped (q : Pattern) : Prop :=
  ∀ pre u v post g, q.Takes pre (u ++ v) post [] g → u ≠ [] → v ≠ [] → q.matchAt (behind (pre ++ u) (v ++ post)) = none

/-- The search goes on behind the last match, or is still within it. -/
def Resumes (q : Pattern) (pre rest : Text) (resume : Nat) : Prop :=
  resume ≤ Text.byteSize pre ∨ ∃ start u v post g, pre = start ++ u ∧ rest = v ++ post ∧ u ≠ [] ∧
    q.Takes start (u ++ v) post [] g ∧ resume = Text.byteSize (pre ++ v)

/-- Whether `m` is the match at some place behind `pre`. -/
def Lies (q : Pattern) (pre rest : Text) (m : Match) : Prop :=
  ∃ u v, rest = u ++ v ∧ q.matchAt (behind (pre ++ u) v) = some m

theorem lies_nil : q.Lies pre [] m ↔ q.matchAt (behind pre []) = some m := by
  constructor
  · rintro ⟨u, v, h, hm⟩
    obtain ⟨rfl, rfl⟩ := List.append_eq_nil_iff.mp h.symm
    rwa [List.append_nil] at hm
  · exact fun hm => ⟨[], [], rfl, by rwa [List.append_nil]⟩

theorem lies_cons {x : Char} :
    q.Lies pre (x :: rest) m ↔ q.matchAt (behind pre (x :: rest)) = some m ∨ q.Lies (pre ++ [x]) rest m := by
  constructor
  · rintro ⟨u, v, h, hm⟩
    rcases List.cons_eq_append_iff.mp h with ⟨rfl, rfl⟩ | ⟨u, rfl, rfl⟩
    · exact Or.inl (by rwa [List.append_nil] at hm)
    · exact Or.inr ⟨u, v, rfl, by rwa [List.append_assoc]⟩
  · rintro (hm | ⟨u, v, rfl, hm⟩)
    · exact ⟨[], _, rfl, by rwa [List.append_nil]⟩
    · exact ⟨x :: u, v, rfl, by rwa [List.append_assoc] at hm⟩

/-- The search has gone on at the end of the text. -/
theorem Resumes.le_of_nil {resume : Nat} (h : q.Resumes pre [] resume) : resume ≤ Text.byteSize pre := by
  rcases h with h | ⟨_, _, v, _, _, _, hrest, _, _, rfl⟩
  · exact h
  · obtain ⟨rfl, _⟩ := List.append_eq_nil_iff.mp hrest.symm
    exact Nat.le_of_eq (congrArg Text.byteSize (List.append_nil pre))

/-- Within the last match there is no other one, and the next character is within it, or right behind. -/
theorem Resumes.within {x : Char} {resume : Nat} (h : q.Resumes pre (x :: rest) resume) (hq : q.Unoverlapped)
    (hlt : Text.byteSize pre < resume) :
    q.matchAt (behind pre (x :: rest)) = none ∧ q.Resumes (pre ++ [x]) rest resume := by
  rcases h with h | ⟨start, u, v, post, g, rfl, hrest, hu, htakes, rfl⟩
  · exact absurd hlt (Nat.not_lt.mpr h)
  have hv : v ≠ [] := by
    rintro rfl
    rw [List.append_nil] at hlt
    exact Nat.lt_irrefl _ hlt
  have hnone := hq start u v post g htakes hu hv
  rw [← hrest] at hnone
  obtain ⟨y, v, rfl⟩ := List.exists_cons_of_ne_nil hv
  obtain ⟨rfl, rfl⟩ := List.cons.inj hrest
  exact ⟨hnone, Or.inr ⟨start, u ++ [x], v, post, g, by simp, rfl, by simp, by simpa using htakes, by simp⟩⟩

/-- Where there is no match, the search goes on with the next character. -/
theorem resumes_of_le {x : Char} {resume : Nat} (hle : resume ≤ Text.byteSize pre) :
    q.Resumes (pre ++ [x]) rest resume :=
  Or.inl (by rw [Text.byteSize_append]; omega)

/-- A match takes the character at its place, and the search goes on behind it. -/
theorem resumes_of_matchAt {x : Char} (hopens : q.opens [] = true) (hm : q.matchAt (behind pre (x :: rest)) = some m) :
    q.Resumes (pre ++ [x]) rest m.stop := by
  obtain ⟨w, post, g, hof⟩ := matchAt_of hm
  obtain ⟨y, w, rfl, _⟩ := opens_takes hopens hof.takes
  obtain ⟨rfl, rfl⟩ := List.cons.inj (List.append_cancel_left hof.text_eq)
  refine Or.inr ⟨pre, [x], w, post, g, rfl, rfl, by simp, hof.takes, ?_⟩
  rw [hof.stop_eq, List.append_assoc]
  rfl

theorem mem_findAllFrom_iff (hq : q.Unoverlapped) (hopens : q.opens [] = true) {resume : Nat}
    (h : q.Resumes pre rest resume) : m ∈ q.findAllFrom pre.getLast? (Text.byteSize pre) resume rest ↔
    q.Lies pre rest m := by
  induction rest generalizing pre resume with
  | nil =>
    rw [findAllFrom, if_neg (Nat.not_lt.mpr h.le_of_nil), lies_nil, Option.mem_toList]
    rfl
  | cons x rest ih =>
    rw [findAllFrom_cons, lies_cons]
    split
    · rename_i hlt
      obtain ⟨hnone, hnext⟩ := h.within hq hlt
      rw [ih hnext, hnone]
      simp
    · rename_i hlt
      cases hm : q.matchAt (behind pre (x :: rest)) with
      | none =>
        dsimp only
        rw [ih (resumes_of_le (Nat.not_lt.mp hlt))]
        simp
      | some m' =>
        dsimp only
        rw [List.mem_cons, ih (resumes_of_matchAt hopens hm)]
        simp [eq_comm]

/-- **Nothing is missed** by the search for all matches if no match starts within another one. -/
theorem mem_findAll_iff (hq : q.Unoverlapped) (hopens : q.opens [] = true) :
    m ∈ q.findAll t ↔ ∃ pre rest, t = pre ++ rest ∧ q.matchAt (behind pre rest) = some m := by
  have hstart : q.Resumes [] t 0 := Or.inl (Nat.zero_le _)
  exact mem_findAllFrom_iff hq hopens hstart

theorem start_of_matchAt (h : q.matchAt (behind pre rest) = some m) : m.start = Text.byteSize pre := by
  obtain ⟨w, post, g, hof⟩ := matchAt_of h
  rw [hof.eq]

/-- A match is listed if no listed match in front of it reaches into it. -/
theorem mem_findAllFrom {u v : Text} {resume : Nat} (hm : q.matchAt (behind (pre ++ u) v) = some m)
    (hresume : resume ≤ Text.byteSize (pre ++ u))
    (hclear : ∀ m' ∈ q.findAllFrom pre.getLast? (Text.byteSize pre) resume (u ++ v),
      m'.start < Text.byteSize (pre ++ u) → m'.stop ≤ Text.byteSize (pre ++ u)) :
    m ∈ q.findAllFrom pre.getLast? (Text.byteSize pre) resume (u ++ v) := by
  induction u generalizing pre resume with
  | nil =>
    rw [List.append_nil] at hm hresume
    cases v with
    | nil =>
      rw [List.append_nil, findAllFrom, if_neg (by omega)]
      exact Option.mem_toList.mpr hm
    | cons x v =>
      rw [List.nil_append, findAllFrom_cons, if_neg (by omega), hm]
      exact List.mem_cons_self
  | cons x u ih =>
    have happend : pre ++ x :: u = pre ++ [x] ++ u := by simp
    have hpos : Text.byteSize pre < Text.byteSize (pre ++ x :: u) := by
      rw [Text.byteSize_append]
      exact Nat.lt_add_of_pos_right (Text.byteSize_pos (List.cons_ne_nil x u))
    rw [List.cons_append, findAllFrom_cons] at hclear ⊢
    rw [happend] at hm hresume hclear hpos
    split
    · rename_i hlt
      rw [if_pos hlt] at hclear
      exact ih hm hresume hclear
    · rename_i hlt
      rw [if_neg hlt] at hclear
      cases hm' : q.matchAt (behind pre (x :: (u ++ v))) with
      | none =>
        rw [hm'] at hclear
        exact ih hm hresume hclear
      | some m' =>
        rw [hm'] at hclear
        obtain ⟨hfirst, hclear⟩ := List.forall_mem_cons.mp hclear
        have hstart := start_of_matchAt hm'
        exact List.mem_cons_of_mem m' (ih hm (hfirst (by omega)) hclear)

theorem mem_findAll_of (hm : q.matchAt (behind pre rest) = some m)
    (hclear : ∀ m' ∈ q.findAll (pre ++ rest), m'.start < Text.byteSize pre → m'.stop ≤ Text.byteSize pre) :
    m ∈ q.findAll (pre ++ rest) := by
  have hfrom (u : Text) (hm : q.matchAt (behind ([] ++ u) rest) = some m) := mem_findAllFrom hm (Nat.zero_le _)
  exact hfrom pre hm hclear

/-- The matches from a place on start there or behind it, one behind the other. -/
theorem findAllFrom_increasing (q : Pattern) (pre rest : Text) (resume : Nat) :
    (∀ m ∈ q.findAllFrom pre.getLast? (Text.byteSize pre) resume rest, Text.byteSize pre ≤ m.start) ∧
      (q.findAllFrom pre.getLast? (Text.byteSize pre) resume rest).Pairwise fun m m' => m.start < m'.start := by
  induction rest generalizing pre resume with
  | nil =>
    rw [findAllFrom]
    split
    · exact ⟨List.forall_mem_nil _, .nil⟩
    · refine ⟨fun m hm => Nat.le_of_eq (start_of_matchAt (Option.mem_toList.mp hm)).symm, ?_⟩
      cases q.matchAt ⟨pre.getLast?, [], Text.byteSize pre⟩ with
      | none => exact .nil
      | some m => exact List.pairwise_singleton _ m
  | cons x rest ih =>
    have behind_lt (resume : Nat) :
        ∀ m ∈ q.findAllFrom (pre ++ [x]).getLast? (Text.byteSize (pre ++ [x])) resume rest,
        Text.byteSize pre < m.start := by
      intro m hm
      have hle := (ih (pre ++ [x]) resume).1 m hm
      have := x.utf8Size_pos
      rw [Text.byteSize_append, Text.byteSize_singleton] at hle
      omega
    have later (resume : Nat) := And.intro (fun m hm => Nat.le_of_lt (behind_lt resume m hm)) (ih (pre ++ [x]) resume).2
    rw [findAllFrom_cons]
    split
    · exact later resume
    · cases hm : q.matchAt (behind pre (x :: rest)) with
      | none => exact later resume
      | some m =>
        have hstart := start_of_matchAt hm
        refine ⟨List.forall_mem_cons.mpr ⟨Nat.le_of_eq hstart.symm, (later m.stop).1⟩,
          List.pairwise_cons.mpr ⟨fun m' hm' => ?_, (later m.stop).2⟩⟩
        rw [hstart]
        exact behind_lt m.stop m' hm'

/-- The matches start one behind the other. -/
theorem findAll_increasing (q : Pattern) (t : Text) : (q.findAll t).Pairwise fun m m' => m.start < m'.start :=
  (findAllFrom_increasing q [] t 0).2

end Checkup.Pattern
