import Checkup.Pattern.Class
import Checkup.Proofs.Text.Bytes

/-!
# What a match takes

`Pattern.Takes` says of a pattern, without regard to the order of choices, which texts it takes behind a text and
before another one, and which places of groups it records.

* `run_takes`: a way to match that `run` finds is one of `Takes`.
* `Match.Of`: a match of a pattern in a text; those of `find` and `findAll` are (`find_of`, `findAll_of`).
* `run_many_cons`, `run_few_cons`: repetition, one character at a time.
-/

namespace Checkup

/-- The place behind `pre`, before `rest`. -/
def Cursor.behind (pre rest : Text) : Cursor := ⟨pre.getLast?, rest, Text.byteSize pre⟩

namespace Cursor

@[simp] theorem behind_rest (pre rest : Text) : (behind pre rest).rest = rest := rfl

@[simp] theorem behind_pos (pre rest : Text) : (behind pre rest).pos = Text.byteSize pre := rfl

@[simp] theorem behind_step (pre rest : Text) (x : Char) :
    (behind pre (x :: rest)).step x rest = behind (pre ++ [x]) rest := by
  simp [behind, step, Text.byteSize_singleton]

end Cursor

/-- A word starts where no word character stands in front of one. -/
theorem atWordBoundary_before {x : Char} (hx : x.isWord = true) (pre rest : Text) :
    (Cursor.behind pre (x :: rest)).atWordBoundary = true ↔ pre.getLast?.any Char.isWord = false := by
  simp [Cursor.atWordBoundary, Cursor.behind, hx]

/-- A word ends where no word character stands behind one. -/
theorem atWordBoundary_behind {w : Text} (hw : w.getLast?.any Char.isWord = true) (pre rest : Text) :
    (Cursor.behind (pre ++ w) rest).atWordBoundary = true ↔ rest.head?.any Char.isWord = false := by
  obtain ⟨x, hx, hword⟩ := (Option.any_eq_true _ _).mp hw
  simp [Cursor.atWordBoundary, Cursor.behind, hx, hword]

namespace Pattern

open Cursor (behind)

variable {α : Type} {p : Char → Bool} {k : Cursor → Marks → Option α} {g : Marks}

/-! ## Single characters and choices -/

theorem run_one_cons (pre rest : Text) (x : Char) :
    (one p).run (behind pre (x :: rest)) g k = if p x then k (behind (pre ++ [x]) rest) g else none := by
  rw [← Cursor.behind_step]
  rfl

theorem run_alt (a b : Pattern) (c : Cursor) : (alt a b).run c g k = (a.run c g k).or (b.run c g k) := by
  rw [run]
  cases a.run c g k <;> rfl

theorem run_opt (a : Pattern) (c : Cursor) : (opt a).run c g k = (a.run c g k).or (k c g) := by
  rw [run]
  cases a.run c g k <;> rfl

/-! ## Repetition -/

theorem farthestFirst_eq (p : Char → Bool) (near : List Cursor) (prev : Option Char) (pos : Nat) (t : Text) :
    farthestFirst p near prev pos t = farthestFirst p [] prev pos t ++ near := by
  induction t generalizing near prev pos with
  | nil => rfl
  | cons c t ih =>
    simp only [farthestFirst]
    split
    · rw [ih, ih [_], List.append_assoc]
      rfl
    · rfl

theorem run_many_nil (pre : Text) : (many p).run (behind pre []) g k = k (behind pre []) g := by
  simp only [run, behind, farthestFirst, List.findSome?_cons, List.findSome?_nil]
  cases k _ g <;> rfl

/-- Greedy repetition tries one more character first. -/
theorem run_many_cons (pre rest : Text) (x : Char) :
    (many p).run (behind pre (x :: rest)) g k =
      if p x then ((many p).run (behind (pre ++ [x]) rest) g k).or (k (behind pre (x :: rest)) g)
      else k (behind pre (x :: rest)) g := by
  have last (c : Cursor) : [c].findSome? (fun c => k c g) = k c g := by
    rw [List.findSome?_cons, List.findSome?_nil]
    cases k c g <;> rfl
  rw [← Cursor.behind_step]
  simp only [run, behind, Cursor.step, farthestFirst]
  split
  · rw [farthestFirst_eq, List.findSome?_append, last]
  · exact last _

theorem run_few_nil (pre : Text) : (few p).run (behind pre []) g k = k (behind pre []) g := rfl

/-- Lazy repetition tries to go on without one more character first. -/
theorem run_few_cons (pre rest : Text) (x : Char) :
    (few p).run (behind pre (x :: rest)) g k =
      (k (behind pre (x :: rest)) g).or
        (if p x then (few p).run (behind (pre ++ [x]) rest) g k else none) := by
  rw [← Cursor.behind_step]
  simp only [run, behind, firstNearest, Cursor.step]
  cases k _ g <;> rfl

/-! ## The texts that a pattern takes -/

/-- Whether behind `pre` the pattern may take `w`, with `post` to follow, and add to the marks `g` so that they become
`g'`. -/
def Takes : Pattern → (pre w post : Text) → (g g' : Marks) → Prop
  | nothing, _, w, _, g, g' => w = [] ∧ g' = g
  | one p, _, w, _, g, g' => (∃ x, w = [x] ∧ p x = true) ∧ g' = g
  | many p, _, w, _, g, g' => (∀ x ∈ w, p x = true) ∧ g' = g
  | few p, _, w, _, g, g' => (∀ x ∈ w, p x = true) ∧ g' = g
  | seq a b, pre, w, post, g, g' =>
    ∃ u v g₁, w = u ++ v ∧ a.Takes pre u (v ++ post) g g₁ ∧ b.Takes (pre ++ u) v post g₁ g'
  | alt a b, pre, w, post, g, g' => a.Takes pre w post g g' ∨ b.Takes pre w post g g'
  | opt a, pre, w, post, g, g' => a.Takes pre w post g g' ∨ (w = [] ∧ g' = g)
  | group n a, pre, w, post, g, g' =>
    ∃ g₁, a.Takes pre w post g g₁ ∧ g' = (n, behind pre (w ++ post), behind (pre ++ w) post) :: g₁
  | wordBoundary, pre, w, post, g, g' => w = [] ∧ g' = g ∧ (behind pre post).atWordBoundary = true
  | lineStart, pre, w, post, g, g' => w = [] ∧ g' = g ∧ (behind pre post).atLineStart = true
  | textStart, pre, w, _, g, g' => w = [] ∧ g' = g ∧ pre = []
  | textEnd, _, w, post, g, g' => w = [] ∧ g' = g ∧ post = []

/-- Repetition, greedy or lazy, takes characters of its class. -/
theorem run_many_takes {pre rest : Text} {r : α} (h : (many p).run (behind pre rest) g k = some r) :
    ∃ w post, rest = w ++ post ∧ (∀ x ∈ w, p x = true) ∧ k (behind (pre ++ w) post) g = some r := by
  induction rest generalizing pre with
  | nil => exact ⟨[], [], rfl, by simp, by simpa [run_many_nil] using h⟩
  | cons x rest ih =>
    rw [run_many_cons] at h
    have stay : k (behind pre (x :: rest)) g = some r →
        ∃ w post, x :: rest = w ++ post ∧ (∀ y ∈ w, p y = true) ∧ k (behind (pre ++ w) post) g = some r :=
      fun h => ⟨[], x :: rest, rfl, by simp, by simpa using h⟩
    split at h
    · rename_i hx
      rcases Option.or_eq_some_iff.mp h with h | ⟨_, h⟩
      · obtain ⟨w, post, rfl, hw, hk⟩ := ih h
        exact ⟨x :: w, post, rfl, by simpa [hx] using hw, by simpa using hk⟩
      · exact stay h
    · exact stay h

theorem run_few_takes {pre rest : Text} {r : α} (h : (few p).run (behind pre rest) g k = some r) :
    ∃ w post, rest = w ++ post ∧ (∀ x ∈ w, p x = true) ∧ k (behind (pre ++ w) post) g = some r := by
  induction rest generalizing pre with
  | nil => exact ⟨[], [], rfl, by simp, by simpa [run_few_nil] using h⟩
  | cons x rest ih =>
    rw [run_few_cons] at h
    rcases Option.or_eq_some_iff.mp h with h | ⟨_, h⟩
    · exact ⟨[], x :: rest, rfl, by simp, by simpa using h⟩
    · split at h
      · rename_i hx
        obtain ⟨w, post, rfl, hw, hk⟩ := ih h
        exact ⟨x :: w, post, rfl, by simpa [hx] using hw, by simpa using hk⟩
      · cases h

/-- **Soundness of the search**: what `run` finds is a way to match, behind which the continuation succeeds. -/
theorem run_takes {q : Pattern} {pre rest : Text} {r : α} (h : q.run (behind pre rest) g k = some r) :
    ∃ w post g', rest = w ++ post ∧ q.Takes pre w post g g' ∧ k (behind (pre ++ w) post) g' = some r := by
  induction q generalizing pre rest g k with
  | nothing => exact ⟨[], rest, g, rfl, ⟨rfl, rfl⟩, by simpa [run] using h⟩
  | one p =>
    cases rest with
    | nil => simp [run] at h
    | cons x rest =>
      rw [run_one_cons] at h
      split at h
      · rename_i hx
        exact ⟨[x], rest, g, rfl, ⟨⟨x, rfl, hx⟩, rfl⟩, h⟩
      · cases h
  | many p =>
    obtain ⟨w, post, hrest, hw, hk⟩ := run_many_takes h
    exact ⟨w, post, g, hrest, ⟨hw, rfl⟩, hk⟩
  | few p =>
    obtain ⟨w, post, hrest, hw, hk⟩ := run_few_takes h
    exact ⟨w, post, g, hrest, ⟨hw, rfl⟩, hk⟩
  | seq a b iha ihb =>
    obtain ⟨u, rest', g₁, rfl, hu, h⟩ := iha h
    obtain ⟨v, post, g', rfl, hv, hk⟩ := ihb h
    exact ⟨u ++ v, post, g', (List.append_assoc u v post).symm, ⟨u, v, g₁, rfl, hu, hv⟩,
      by rwa [← List.append_assoc]⟩
  | alt a b iha ihb =>
    rw [run_alt] at h
    rcases Option.or_eq_some_iff.mp h with h | ⟨_, h⟩
    · obtain ⟨w, post, g', hrest, hw, hk⟩ := iha h
      exact ⟨w, post, g', hrest, Or.inl hw, hk⟩
    · obtain ⟨w, post, g', hrest, hw, hk⟩ := ihb h
      exact ⟨w, post, g', hrest, Or.inr hw, hk⟩
  | opt a ih =>
    rw [run_opt] at h
    rcases Option.or_eq_some_iff.mp h with h | ⟨_, h⟩
    · obtain ⟨w, post, g', hrest, hw, hk⟩ := ih h
      exact ⟨w, post, g', hrest, Or.inl hw, hk⟩
    · exact ⟨[], rest, g, rfl, Or.inr ⟨rfl, rfl⟩, by simpa using h⟩
  | group n a ih =>
    obtain ⟨w, post, g₁, rfl, hw, hk⟩ := ih h
    exact ⟨w, post, _, rfl, ⟨g₁, hw, rfl⟩, hk⟩
  | wordBoundary =>
    rw [run] at h
    split at h
    · rename_i hc
      exact ⟨[], rest, g, rfl, ⟨rfl, rfl, hc⟩, by simpa using h⟩
    · cases h
  | lineStart =>
    rw [run] at h
    split at h
    · rename_i hc
      exact ⟨[], rest, g, rfl, ⟨rfl, rfl, hc⟩, by simpa using h⟩
    · cases h
  | textStart =>
    rw [run] at h
    split at h
    · rename_i hc
      exact ⟨[], rest, g, rfl, ⟨rfl, rfl, Text.byteSize_eq_zero.mp hc⟩, by simpa using h⟩
    · cases h
  | textEnd =>
    rw [run] at h
    split at h
    · rename_i hc
      exact ⟨[], rest, g, rfl, ⟨rfl, rfl, List.isEmpty_iff.mp hc⟩, by simpa using h⟩
    · cases h

/-! ## Matches in a text -/

/-- What the marks say of the groups. -/
def captures (g : Marks) : List (Nat × Capture) := g.map fun (n, a, b) => (n, .between a b)

end Pattern

/-- The part between two places of which the second is behind the first. -/
theorem Capture.between_behind (pre w post : Text) :
    Capture.between (Cursor.behind pre (w ++ post)) (Cursor.behind (pre ++ w) post) = ⟨Text.byteSize pre, w⟩ := by
  simp [Capture.between]

/-- Whether `m` is a match of the pattern in the text: of `w`, behind `pre`. -/
structure Match.Of (p : Pattern) (t : Text) (m : Match) (pre w post : Text) (g : Pattern.Marks) : Prop where
  text_eq : t = pre ++ (w ++ post)
  takes : p.Takes pre w post [] g
  eq : m = ⟨⟨Text.byteSize pre, w⟩, Pattern.captures g⟩

theorem Match.Of.stop_eq {p : Pattern} {t : Text} {m : Match} {pre w post : Text} {g : Pattern.Marks}
    (h : m.Of p t pre w post g) : m.stop = Text.byteSize (pre ++ w) := by
  rw [h.eq, Capture.stop, Text.byteSize_append]

namespace Pattern

open Cursor (behind)

variable {q : Pattern} {t : Text} {m : Match}

theorem matchAt_of {pre rest : Text} (h : q.matchAt (behind pre rest) = some m) :
    ∃ w post g, m.Of q (pre ++ rest) pre w post g := by
  obtain ⟨w, post, g, rfl, hw, hm⟩ := run_takes h
  refine ⟨w, post, g, rfl, hw, ?_⟩
  rw [Capture.between_behind] at hm
  exact (Option.some.inj hm).symm

theorem findFrom_of (pre : Text) {rest : Text} (h : q.findFrom pre.getLast? (Text.byteSize pre) rest = some m) :
    ∃ pre' w post g, m.Of q (pre ++ rest) pre' w post g := by
  induction rest generalizing pre with
  | nil => exact ⟨pre, matchAt_of h⟩
  | cons x rest ih =>
    rw [findFrom] at h
    split at h
    · rename_i m' hm
      exact ⟨pre, matchAt_of (hm.trans h)⟩
    · have step : q.findFrom (pre ++ [x]).getLast? (Text.byteSize (pre ++ [x])) rest = some m := by
        simpa [Text.byteSize_singleton] using h
      simpa using ih _ step

/-- What `find` gives is a match. -/
theorem find_of (h : q.find t = some m) : ∃ pre w post g, m.Of q t pre w post g := findFrom_of [] h

/-- The search for all matches, one character at a time. -/
theorem findAllFrom_cons (q : Pattern) (pre rest : Text) (resume : Nat) (x : Char) :
    q.findAllFrom pre.getLast? (Text.byteSize pre) resume (x :: rest) =
      if Text.byteSize pre < resume then
        q.findAllFrom (pre ++ [x]).getLast? (Text.byteSize (pre ++ [x])) resume rest
      else
        match q.matchAt (behind pre (x :: rest)) with
        | some m => m :: q.findAllFrom (pre ++ [x]).getLast? (Text.byteSize (pre ++ [x])) m.stop rest
        | none => q.findAllFrom (pre ++ [x]).getLast? (Text.byteSize (pre ++ [x])) resume rest := by
  rw [findAllFrom, List.getLast?_concat, Text.byteSize_append, Text.byteSize_singleton]
  rfl

theorem findAllFrom_of (pre : Text) {rest : Text} {resume : Nat}
    (h : m ∈ q.findAllFrom pre.getLast? (Text.byteSize pre) resume rest) :
    ∃ pre' w post g, m.Of q (pre ++ rest) pre' w post g := by
  induction rest generalizing pre resume with
  | nil =>
    rw [findAllFrom] at h
    split at h
    · cases h
    · exact ⟨pre, matchAt_of (Option.mem_toList.mp h)⟩
  | cons x rest ih =>
    have go {resume : Nat} (h : m ∈ q.findAllFrom (pre ++ [x]).getLast? (Text.byteSize (pre ++ [x])) resume rest) :
        ∃ pre' w post g, m.Of q (pre ++ x :: rest) pre' w post g := by
      simpa using ih _ h
    rw [findAllFrom_cons] at h
    split at h
    · exact go h
    · split at h
      · rename_i m' hm
        rcases List.mem_cons.mp h with rfl | h
        · exact ⟨pre, matchAt_of hm⟩
        · exact go h
      · exact go h

/-- What `findAll` lists are matches. -/
theorem findAll_of (h : m ∈ q.findAll t) : ∃ pre w post g, m.Of q t pre w post g := findAllFrom_of [] h

end Pattern

end Checkup
