import Mathlib.Data.List.Forall2
import Mathlib.Tactic.SplitIfs
import Checkup.Source.BraceScope

/-!
# The life of a scope

A tracker is asked to announce scopes and to feed pieces of text, and each such call is some steps: an announcement,
the characters of a piece, its end. Where a scope stands behind the first `n` of all steps follows from the depth
behind each of them alone.

* `BraceScope.Waits`: no brace has led deeper than where the scope was announced, and not too many pieces have ended.
* `BraceScope.Opens`: a brace leads deeper while the scope waits.
* `BraceScope.LeadsBack`: a brace leads back to where the scope was announced.
* `BraceScope.Stands`: the scope was opened, and no brace has led back since.

A mark of the tracker meets no other mark, so `BraceScope.record` follows it alone (`reached_marks`), and says of it
what these four do (`record_tells`). `BraceScope.calls_lifetime` puts the marks together.
-/

namespace Checkup.BraceScope

variable {α : Type}

/-- What a tracker is asked to do. -/
inductive Call (α : Type) where
  | announce (tag : α)
  | feed (t : Text)

/-- A step of a call. -/
inductive Step (α : Type) where
  | announce (tag : α)
  | char (c : Char)
  | endPiece

namespace Call

/-- The tracker behind a call. -/
def apply (s : BraceScope α) : Call α → BraceScope α
  | .announce tag => s.announce tag
  | .feed t => s.feed t

/-- The steps of a call. -/
def steps : Call α → List (Step α)
  | .announce tag => [.announce tag]
  | .feed t => t.map .char ++ [.endPiece]

end Call

/-- The tracker behind a step. -/
def Step.apply (s : BraceScope α) : Step α → BraceScope α
  | .announce tag => s.announce tag
  | .char c => s.feedChar c
  | .endPiece => s.endPiece

/-- Whether the step is the end of a piece of text. -/
def Step.isEnd : Step α → Bool
  | .endPiece => true
  | _ => false

/-- The steps of a call lead where the call does. -/
theorem foldl_steps (s : BraceScope α) (call : Call α) : call.steps.foldl Step.apply s = call.apply s := by
  cases call with
  | announce tag => rfl
  | feed t =>
    rw [Call.steps, List.foldl_append, List.foldl_map]
    rfl

theorem foldl_flatMap_steps (calls : List (Call α)) (s : BraceScope α) :
    (calls.flatMap Call.steps).foldl Step.apply s = calls.foldl Call.apply s := by
  induction calls generalizing s with
  | nil => rfl
  | cons call calls ih => rw [List.flatMap_cons, List.foldl_append, foldl_steps, ih, List.foldl_cons]

/-! ## The life of one scope -/

/-- The tracker behind the first steps. -/
def reached (h : List (Step α)) (n : Nat) : BraceScope α := (h.take n).foldl Step.apply start

/-- How deep the text is behind the first steps. -/
def depthAt (h : List (Step α)) (n : Nat) : Nat := (reached h n).depth

/-- How many pieces of text end behind step `i` and before step `n`. -/
def pieces (h : List (Step α)) (i n : Nat) : Nat := (List.range n).countP fun k => i < k && h[k]?.any Step.isEnd

/-- The scope that step `i` announces waits for its brace when step `n` comes. -/
structure Waits (h : List (Step α)) (i n : Nat) : Prop where
  before : i < n
  announced : ∃ tag, h[i]? = some (.announce tag)
  shallow : ∀ k, i < k → k < n → h[k]? = some (.char '\x7b') → depthAt h (k + 1) ≤ depthAt h i
  soon : pieces h i n < graceLines

/-- Step `j` opens the scope that step `i` announces: it is the first brace behind the announcement that leads deeper,
and stands in one of the next pieces of text. -/
structure Opens (h : List (Step α)) (i j : Nat) : Prop extends Waits h i j where
  brace : h[j]? = some (.char '\x7b')
  deeper : depthAt h i < depthAt h (j + 1)

/-- Step `k` is a brace that leads back to where the scope was announced, or farther. -/
structure LeadsBack (h : List (Step α)) (i k : Nat) : Prop where
  brace : h[k]? = some (.char '\x7d')
  back : depthAt h (k + 1) ≤ depthAt h i

/-- The scope that step `i` announces is open when step `n` comes. -/
def Stands (h : List (Step α)) (i n : Nat) : Prop :=
  ∃ j < n, Opens h i j ∧ ∀ k, j < k → k < n → ¬ LeadsBack h i k

variable {h : List (Step α)} {i j k n : Nat} {tag : α} {step : Step α} {m : Mark α}

theorem reached_succ (hstep : h[n]? = some step) : reached h (n + 1) = step.apply (reached h n) := by
  rw [reached, List.take_add_one, hstep, List.foldl_append]
  rfl

theorem depthAt_succ (hstep : h[n]? = some step) : depthAt h (n + 1) = (step.apply (reached h n)).depth := by
  rw [depthAt, reached_succ hstep]

theorem depthAt_succ_char {c : Char} (hstep : h[n]? = some (.char c)) :
    depthAt h (n + 1) =
      if c = '\x7b' then depthAt h n + 1 else if c = '\x7d' then depthAt h n - 1 else depthAt h n := by
  rw [depthAt_succ hstep, Step.apply, feedChar]
  split_ifs <;> rfl

theorem pieces_succ (hi : i < n) (hstep : h[n]? = some step) :
    pieces h i (n + 1) = pieces h i n + if step.isEnd then 1 else 0 := by
  simp [pieces, List.range_succ, List.countP_append, List.countP_cons, hstep, hi]

theorem pieces_le_succ (h : List (Step α)) (i n : Nat) : pieces h i n ≤ pieces h i (n + 1) := by
  rw [pieces, pieces, List.range_succ, List.countP_append]
  exact Nat.le_add_right _ _

theorem pieces_self (h : List (Step α)) (i : Nat) : pieces h i (i + 1) = 0 := by
  rw [pieces, List.countP_eq_zero]
  intro k hk
  have := List.mem_range.mp hk
  simp only [Bool.and_eq_true, decide_eq_true_eq, not_and]
  omega

theorem opens_iff (hstep : h[n]? = some step) :
    Opens h i n ↔ Waits h i n ∧ step = .char '\x7b' ∧ depthAt h i < depthAt h (n + 1) := by
  constructor
  · intro ho
    exact ⟨ho.toWaits, Option.some.inj (hstep.symm.trans ho.brace), ho.deeper⟩
  · rintro ⟨hw, rfl, hdeeper⟩
    exact ⟨hw, hstep, hdeeper⟩

theorem leadsBack_iff (hstep : h[n]? = some step) :
    LeadsBack h i n ↔ step = .char '\x7d' ∧ depthAt h (n + 1) ≤ depthAt h i := by
  constructor
  · intro hl
    exact ⟨Option.some.inj (hstep.symm.trans hl.brace), hl.back⟩
  · rintro ⟨rfl, hback⟩
    exact ⟨hstep, hback⟩

/-- A scope is open behind a step if it was before and the step does not lead back, or if the step opens it. -/
theorem stands_succ : Stands h i (n + 1) ↔ (Stands h i n ∧ ¬ LeadsBack h i n) ∨ Opens h i n := by
  constructor
  · rintro ⟨j, hj, hopens, hk⟩
    rcases Nat.lt_or_eq_of_le (Nat.le_of_lt_succ hj) with hjn | rfl
    · exact Or.inl ⟨⟨j, hjn, hopens, fun k hjk hkn => hk k hjk (by omega)⟩, hk n hjn (Nat.lt_succ_self n)⟩
    · exact Or.inr hopens
  · rintro (⟨⟨j, hj, hopens, hk⟩, hn⟩ | hopens)
    · refine ⟨j, by omega, hopens, fun k hjk hkn => ?_⟩
      rcases Nat.lt_or_eq_of_le (Nat.le_of_lt_succ hkn) with hlt | rfl
      · exact hk k hjk hlt
      · exact hn
    · exact ⟨n, Nat.lt_succ_self n, hopens, fun k hk hkn => by omega⟩

/-- A scope still waits behind a step if it waited before and the step is neither its brace nor one end too many. -/
theorem waits_succ (hi : i < n) :
    Waits h i (n + 1) ↔ Waits h i n ∧ ¬ Opens h i n ∧ pieces h i (n + 1) < graceLines := by
  constructor
  · intro hw
    have hle := pieces_le_succ h i n
    refine ⟨⟨hi, hw.announced, fun k hik hkn => hw.shallow k hik (by omega),
      Nat.lt_of_le_of_lt hle hw.soon⟩, ?_, hw.soon⟩
    intro ho
    exact Nat.not_le.mpr ho.deeper (hw.shallow n hi (Nat.lt_succ_self n) ho.brace)
  · rintro ⟨hw, ho, hsoon⟩
    refine ⟨by omega, hw.announced, fun k hik hkn hbrace => ?_, hsoon⟩
    rcases Nat.lt_or_eq_of_le (Nat.le_of_lt_succ hkn) with hlt | rfl
    · exact hw.shallow k hik hlt hbrace
    · exact Nat.le_of_not_lt fun hdeeper => ho ⟨hw, hbrace, hdeeper⟩

/-- A scope that is open waits no more. -/
theorem Stands.not_waits (hs : Stands h i n) : ¬ Waits h i n := by
  obtain ⟨j, hj, hopens, _⟩ := hs
  intro hw
  exact Nat.not_le.mpr hopens.deeper (hw.shallow j hopens.before hj hopens.brace)

/-- What is neither open nor waiting stays so. -/
theorem gone_succ (hi : i < n) (hs : ¬ Stands h i n) (hw : ¬ Waits h i n) :
    ¬ Stands h i (n + 1) ∧ ¬ Waits h i (n + 1) := by
  rw [stands_succ, waits_succ hi]
  exact ⟨fun hor => hor.elim (fun hand => hs hand.1) fun hopens => hw hopens.toWaits, fun hand => hw hand.1⟩

/-! ## One mark -/

/-- A mark behind a step that leads to the given depth, if it is left. -/
def Mark.next (depth : Nat) (m : Mark α) : Step α → Option (Mark α)
  | .announce _ => some m
  | .char c =>
    if c = '\x7b' then some { m with isOpen := m.isOpen || m.depth < depth }
    else if c = '\x7d' then if m.isOpen && depth ≤ m.depth then none else some m
    else some m
  | .endPiece =>
    if m.isOpen then some m else if m.grace ≤ 1 then none else some { m with grace := m.grace - 1 }

/-- The mark of an announcement at the given depth. -/
def Step.mark? (depth : Nat) : Step α → Option (Mark α)
  | .announce tag => some ⟨depth, false, graceLines, tag⟩
  | _ => none

/-- Each mark takes the step on its own, and an announcement adds one. -/
theorem apply_marks (s : BraceScope α) (step : Step α) :
    (step.apply s).marks =
      s.marks.filterMap (fun m => m.next (step.apply s).depth step) ++ (step.mark? s.depth).toList := by
  cases step with
  | announce tag => simp [Step.apply, announce, Mark.next, Step.mark?]
  | char c =>
    simp only [Step.apply, feedChar, Step.mark?, Option.toList_none, List.append_nil]
    split_ifs with hopen hclose
    · simp [Mark.next, hopen]
    · rw [← List.filterMap_eq_filter]
      refine List.filterMap_congr fun m _ => ?_
      generalize s.depth - 1 = depth
      cases hm : m.isOpen <;> by_cases hd : depth ≤ m.depth <;> simp [Mark.next, hclose, hm, hd]
    · simp [Mark.next, hopen, hclose]
  | endPiece =>
    simp only [Step.apply, endPiece, Step.mark?, Option.toList_none, List.append_nil]
    rw [← List.filterMap_eq_filter, List.filterMap_map]
    refine List.filterMap_congr fun m _ => ?_
    cases hm : m.isOpen
    · by_cases hg : m.grace ≤ 1
      · have : m.grace - 1 = 0 := by omega
        simp [Mark.next, hm, hg, this]
      · have : 0 < m.grace - 1 := by omega
        simp [Mark.next, hm, hg, this]
    · simp [Mark.next, hm]

/-- The mark of the scope that step `i` announces when step `n` comes. -/
def record (h : List (Step α)) (i : Nat) : Nat → Option (Mark α)
  | 0 => none
  | n + 1 =>
    if n = i then h[n]?.bind (Step.mark? (depthAt h n))
    else (record h i n).bind fun m => h[n]?.bind (m.next (depthAt h (n + 1)))

/-- The marks are those of the announcements, in order. -/
theorem reached_marks (hn : n ≤ h.length) : (reached h n).marks = (List.range n).filterMap fun i => record h i n := by
  induction n with
  | zero => rfl
  | succ n ih =>
    have hstep : h[n]? = some h[n] := List.getElem?_eq_getElem hn
    have hdepth := depthAt_succ hstep
    rw [reached_succ hstep, apply_marks, ih (Nat.le_of_lt hn), List.filterMap_filterMap, List.range_succ,
      List.filterMap_append, ← hdepth]
    congr 1
    · refine List.filterMap_congr fun i hi => ?_
      rw [record, if_neg (Nat.ne_of_gt (List.mem_range.mp hi)), hstep]
      rfl
    · have hlast (f : Nat → Option (Mark α)) : [n].filterMap f = (f n).toList := by cases hf : f n <;> simp [hf]
      rw [hlast, record, if_pos rfl, hstep]
      rfl

/-- What the mark of the scope that step `i` announces says of the scope when step `n` comes. -/
structure Mark.Of (h : List (Step α)) (i n : Nat) (m : Mark α) : Prop where
  tag : h[i]? = some (.announce m.tag)
  depth : m.depth = depthAt h i
  stands : m.isOpen = true → Stands h i n ∧ depthAt h i < depthAt h n
  waits : m.isOpen = false → Waits h i n ∧ m.grace + pieces h i n = graceLines

/-- What a mark that may be left behind a step says of the scope that step `i` announces. -/
def Mark.Tells (h : List (Step α)) (i n : Nat) : Option (Mark α) → Prop
  | some m => m.Of h i n
  | none => ¬ Stands h i n ∧ ¬ Waits h i n

theorem tells_announced (htag : h[i]? = some (.announce tag)) :
    Mark.Tells h i (i + 1) (some ⟨depthAt h i, false, graceLines, tag⟩) where
  tag := htag
  depth := rfl
  stands hopen := by cases hopen
  waits _ := by
    have hzero := pieces_self h i
    refine ⟨⟨Nat.lt_succ_self i, ⟨tag, htag⟩, fun k hik hki => by omega, ?_⟩, ?_⟩
    · rw [hzero]
      exact Nat.zero_lt_succ _
    · rw [hzero, Nat.add_zero]

/-- An open scope stays open until a brace leads back. -/
theorem tells_next_of_isOpen (hm : m.Of h i n) (hi : i < n) (hopen : m.isOpen = true) (hstep : h[n]? = some step) :
    Mark.Tells h i (n + 1) (m.next (depthAt h (n + 1)) step) := by
  obtain ⟨hs, hdeep⟩ := hm.stands hopen
  have keep (hback : ¬ LeadsBack h i n) (hdeep : depthAt h i < depthAt h (n + 1)) : m.Of h i (n + 1) :=
    ⟨hm.tag, hm.depth, fun _ => ⟨stands_succ.mpr (Or.inl ⟨hs, hback⟩), hdeep⟩,
      fun hclosed => by simp [hopen] at hclosed⟩
  rw [leadsBack_iff hstep] at keep
  cases step with
  | announce tag => exact keep (by simp) (depthAt_succ hstep ▸ hdeep)
  | endPiece =>
    rw [Mark.next, if_pos hopen]
    exact keep (by simp) (depthAt_succ hstep ▸ hdeep)
  | char c =>
    have hdepth := depthAt_succ_char hstep
    rw [Mark.next]
    split_ifs at hdepth ⊢ with hbrace hclose hback
    · have hsame : { m with isOpen := m.isOpen || m.depth < depthAt h (n + 1) } = m := by cases m; simp_all
      rw [hsame]
      exact keep (by simp [hbrace]) (by omega)
    · simp only [hopen, Bool.true_and, decide_eq_true_eq, hm.depth] at hback
      have hleads : LeadsBack h i n := (leadsBack_iff hstep).mpr ⟨by rw [hclose], hback⟩
      have hw := hs.not_waits
      refine ⟨?_, fun hw' => hw ((waits_succ hi).mp hw').1⟩
      rw [stands_succ]
      exact fun hor => hor.elim (fun hand => hand.2 hleads) fun hopens => hw hopens.toWaits
    · simp only [hopen, Bool.true_and, decide_eq_true_eq, hm.depth, Nat.not_le] at hback
      exact keep (fun hand => Nat.not_le.mpr hback hand.2) hback
    · exact keep (by simp [hclose]) (hdepth ▸ hdeep)

/-- A scope that waits is opened by a brace that leads deeper, and dropped at the end of the last piece it waits for. -/
theorem tells_next_of_waits (hm : m.Of h i n) (hi : i < n) (hclosed : m.isOpen = false) (hstep : h[n]? = some step) :
    Mark.Tells h i (n + 1) (m.next (depthAt h (n + 1)) step) := by
  obtain ⟨hw, hgrace⟩ := hm.waits hclosed
  have hpieces := pieces_succ hi hstep
  have keep (hopens : ¬ Opens h i n) (hend : step.isEnd = false) : m.Of h i (n + 1) := by
    rw [hend, if_neg Bool.false_ne_true, Nat.add_zero] at hpieces
    refine ⟨hm.tag, hm.depth, fun hopen => by simp [hclosed] at hopen, fun _ => ⟨?_, hpieces ▸ hgrace⟩⟩
    exact (waits_succ hi).mpr ⟨hw, hopens, hpieces ▸ hw.soon⟩
  rw [opens_iff hstep] at keep
  cases step with
  | announce tag => exact keep (by simp) rfl
  | endPiece =>
    rw [Step.isEnd, if_pos rfl] at hpieces
    rw [Mark.next, hclosed, if_neg Bool.false_ne_true]
    have hopens : ¬ Opens h i n := by simp [opens_iff hstep]
    split_ifs with hgrace'
    · refine ⟨?_, fun hw' => ?_⟩
      · rw [stands_succ]
        exact fun hor => hor.elim (fun hand => hand.1.not_waits hw) hopens
      · have := hw'.soon
        omega
    · refine ⟨hm.tag, hm.depth, fun hopen => by simp at hopen, fun _ => ⟨?_, ?_⟩⟩
      · exact (waits_succ hi).mpr ⟨hw, hopens, by omega⟩
      · show m.grace - 1 + _ = _
        omega
  | char c =>
    rw [Mark.next, hclosed, Bool.false_and, if_neg Bool.false_ne_true, ite_self]
    split_ifs with hbrace
    · by_cases hdeeper : m.depth < depthAt h (n + 1)
      · have hopens : Opens h i n := (opens_iff hstep).mpr ⟨hw, by rw [hbrace], hm.depth ▸ hdeeper⟩
        refine ⟨hm.tag, hm.depth, fun _ => ⟨stands_succ.mpr (Or.inr hopens), hopens.deeper⟩, fun hclosed => ?_⟩
        simp [hdeeper] at hclosed
      · have hsame : { m with isOpen := false || m.depth < depthAt h (n + 1) } = m := by cases m; simp_all
        rw [hsame]
        exact keep (fun hand => hdeeper (hm.depth ▸ hand.2.2)) rfl
    · exact keep (by simp [hbrace]) rfl

theorem Mark.Tells.next {o : Option (Mark α)} (ho : Mark.Tells h i n o) (hi : i < n) (hstep : h[n]? = some step) :
    Mark.Tells h i (n + 1) (o.bind fun m => m.next (depthAt h (n + 1)) step) := by
  cases o with
  | none => exact gone_succ hi ho.1 ho.2
  | some m =>
    cases hopen : m.isOpen with
    | true => exact tells_next_of_isOpen ho hi hopen hstep
    | false => exact tells_next_of_waits ho hi hopen hstep

/-- The mark of an announcement tells of its scope. -/
theorem record_tells (htag : h[i]? = some (.announce tag)) (hi : i < n) (hn : n ≤ h.length) :
    Mark.Tells h i n (record h i n) := by
  induction n with
  | zero => cases hi
  | succ n ih =>
    rcases Nat.lt_or_eq_of_le (Nat.le_of_lt_succ hi) with hlt | rfl
    · have hstep : h[n]? = some h[n] := List.getElem?_eq_getElem hn
      rw [record, if_neg (Nat.ne_of_gt hlt), hstep]
      exact (ih hlt (Nat.le_of_lt hn)).next hlt hstep
    · rw [record, if_pos rfl, htag]
      exact tells_announced htag

/-- A step that announces nothing has no mark. -/
theorem record_eq_none (htag : ∀ tag, h[i]? ≠ some (.announce tag)) : record h i n = none := by
  induction n with
  | zero => rfl
  | succ n ih =>
    rw [record]
    split_ifs with hi
    · rw [hi]
      cases hstep : h[i]? with
      | none => rfl
      | some step =>
        cases step with
        | announce tag => exact absurd hstep (htag tag)
        | char c => rfl
        | endPiece => rfl
    · rw [ih, Option.bind_none]

/-! ## All marks -/

theorem Mark.Of.isOpen_iff (hm : m.Of h i n) : m.isOpen = true ↔ Stands h i n := by
  refine ⟨fun hopen => (hm.stands hopen).1, fun hs => ?_⟩
  cases hopen : m.isOpen with
  | true => rfl
  | false => exact absurd (hm.waits hopen).1 hs.not_waits

theorem of_record (hi : i < n) (hn : n ≤ h.length) (hm : record h i n = some m) : m.Of h i n := by
  by_cases htag : ∃ tag, h[i]? = some (.announce tag)
  · obtain ⟨tag, htag⟩ := htag
    have := record_tells htag hi hn
    rwa [hm] at this
  · rw [record_eq_none fun tag htag' => htag ⟨tag, htag'⟩] at hm
    cases hm

theorem Stands.before (hs : Stands h i n) : i < n := by
  obtain ⟨j, hj, hopens, _⟩ := hs
  exact Nat.lt_trans hopens.before hj

/-- There is a mark for each scope that is open or waits. -/
theorem exists_record_iff (hn : n ≤ h.length) :
    (∃ m, i < n ∧ record h i n = some m) ↔ Stands h i n ∨ Waits h i n := by
  constructor
  · rintro ⟨m, hi, hm⟩
    have hof := of_record hi hn hm
    cases hopen : m.isOpen with
    | true => exact Or.inl (hof.stands hopen).1
    | false => exact Or.inr (hof.waits hopen).1
  · intro hor
    have hi : i < n := hor.elim Stands.before Waits.before
    have htag : ∃ tag, h[i]? = some (.announce tag) :=
      hor.elim (fun ⟨_, _, hopens, _⟩ => hopens.announced) Waits.announced
    obtain ⟨tag, htag⟩ := htag
    have htells := record_tells htag hi hn
    cases hm : record h i n with
    | none =>
      rw [hm] at htells
      exact absurd hor (not_or.mpr htells)
    | some m => exact ⟨m, hi, rfl⟩

/-- The last index of a range that is as wanted. -/
theorem find?_reverse_range (p : Nat → Bool) (n i : Nat) :
    (List.range n).reverse.find? p = some i ↔ i < n ∧ p i = true ∧ ∀ j, i < j → j < n → p j = false := by
  induction n with
  | zero => simp
  | succ n ih =>
    rw [List.range_succ, List.reverse_append, List.reverse_singleton, List.singleton_append, List.find?_cons]
    cases hn : p n with
    | true =>
      simp only [Option.some.injEq]
      constructor
      · rintro rfl
        exact ⟨Nat.lt_succ_self n, hn, fun j hnj hjn => absurd hjn (Nat.not_lt_of_le hnj)⟩
      · rintro ⟨hi, -, hlater⟩
        rcases Nat.lt_or_eq_of_le (Nat.le_of_lt_succ hi) with hlt | rfl
        · rw [hlater n hlt (Nat.lt_succ_self n)] at hn
          cases hn
        · rfl
    | false =>
      rw [ih]
      constructor
      · rintro ⟨hi, hp, hlater⟩
        refine ⟨Nat.lt_succ_of_lt hi, hp, fun j hij hjn => ?_⟩
        rcases Nat.lt_or_eq_of_le (Nat.le_of_lt_succ hjn) with hlt | rfl
        · exact hlater j hij hlt
        · exact hn
      · rintro ⟨hi, hp, hlater⟩
        have hne : i ≠ n := by
          rintro rfl
          rw [hn] at hp
          cases hp
        exact ⟨by omega, hp, fun j hij hjn => hlater j hij (Nat.lt_succ_of_lt hjn)⟩

/-- The last item that an index of a range has and that is as wanted. -/
theorem find?_reverse_filterMap_range {β : Type} (f : Nat → Option β) (p : β → Bool) (n : Nat) (b : β) :
    ((List.range n).filterMap f).reverse.find? p = some b ↔
      ∃ i < n, f i = some b ∧ p b = true ∧ ∀ j, i < j → j < n → ∀ c, f j = some c → p c = false := by
  rw [← List.filterMap_reverse, List.find?_filterMap]
  simp only [Option.bind_eq_some_iff, find?_reverse_range, Option.any_eq_true, Option.any_eq_false]
  constructor
  · rintro ⟨i, ⟨hi, ⟨c, hc, hp⟩, hlater⟩, hb⟩
    obtain rfl : c = b := Option.some.inj (hc.symm.trans hb)
    exact ⟨i, hi, hb, hp, fun j hij hjn c hc => by simpa using hlater j hij hjn c hc⟩
  · rintro ⟨i, hi, hb, hp, hlater⟩
    exact ⟨i, ⟨hi, ⟨b, hb, hp⟩, fun j hij hjn c hc => by simpa using hlater j hij hjn c hc⟩, hb⟩

theorem forall₂_filterMap {β γ : Type} {R : β → γ → Prop} {f : β → Option γ} {l : List β}
    (hR : ∀ b ∈ l, ∀ c, f b = some c → R b c) :
    List.Forall₂ R (l.filter fun b => (f b).isSome) (l.filterMap f) := by
  induction l with
  | nil => exact .nil
  | cons b l ih =>
    obtain ⟨hb, hl⟩ := List.forall_mem_cons.mp hR
    cases hc : f b with
    | none => simpa [hc] using ih hl
    | some c => simpa [hc] using ⟨hb c hc, ih hl⟩

/-- The marks, in the order of the announcements. -/
theorem exists_ids (hn : n ≤ h.length) :
    ∃ ids : List Nat, ids.Pairwise (· < ·) ∧ (∀ i, i ∈ ids ↔ Stands h i n ∨ Waits h i n) ∧
      List.Forall₂ (fun i m => m.Of h i n) ids (reached h n).marks := by
  refine ⟨(List.range n).filter fun i => (record h i n).isSome, List.pairwise_lt_range.filter _, fun i => ?_, ?_⟩
  · rw [← exists_record_iff hn, List.mem_filter, List.mem_range, Option.isSome_iff_exists, exists_and_left]
  · rw [reached_marks hn]
    exact forall₂_filterMap fun i hi m hm => of_record (List.mem_range.mp hi) hn hm

theorem of_mem_marks (hn : n ≤ h.length) (hm : m ∈ (reached h n).marks) : ∃ i, m.Of h i n := by
  rw [reached_marks hn] at hm
  obtain ⟨i, hi, hm⟩ := List.mem_filterMap.mp hm
  exact ⟨i, of_record (List.mem_range.mp hi) hn hm⟩

theorem isInside_iff (hn : n ≤ h.length) : (reached h n).isInside = true ↔ ∃ i, Stands h i n := by
  rw [isInside, List.any_eq_true]
  constructor
  · rintro ⟨m, hm, hopen⟩
    obtain ⟨i, hof⟩ := of_mem_marks hn hm
    exact ⟨i, (hof.stands hopen).1⟩
  · rintro ⟨i, hs⟩
    obtain ⟨m, hi, hm⟩ := (exists_record_iff hn).mpr (Or.inl hs)
    refine ⟨m, ?_, (of_record hi hn hm).isOpen_iff.mpr hs⟩
    rw [reached_marks hn]
    exact List.mem_filterMap.mpr ⟨i, List.mem_range.mpr hi, hm⟩

theorem innermost_eq_some_iff (hn : n ≤ h.length) :
    (reached h n).innermost = some tag ↔
      ∃ i, Stands h i n ∧ h[i]? = some (.announce tag) ∧ ∀ i', Stands h i' n → i' ≤ i := by
  simp only [innermost, Option.map_eq_some_iff, reached_marks hn, find?_reverse_filterMap_range]
  constructor
  · rintro ⟨m, ⟨i, hi, hm, hopen, hlater⟩, rfl⟩
    have hof := of_record hi hn hm
    refine ⟨i, (hof.stands hopen).1, hof.tag, fun i' hs => Nat.le_of_not_lt fun hlt => ?_⟩
    obtain ⟨m', hi', hm'⟩ := (exists_record_iff hn).mpr (Or.inl hs)
    have hopen' := (of_record hi' hn hm').isOpen_iff.mpr hs
    rw [hlater i' hlt hi' m' hm'] at hopen'
    cases hopen'
  · rintro ⟨i, hs, htag, hlast⟩
    obtain ⟨m, hi, hm⟩ := (exists_record_iff hn).mpr (Or.inl hs)
    have hof := of_record hi hn hm
    refine ⟨m, ⟨i, hi, hm, hof.isOpen_iff.mpr hs, fun j hij hjn m' hm' => ?_⟩, ?_⟩
    · cases hopen : m'.isOpen with
      | false => rfl
      | true => exact absurd (hlast j ((of_record hjn hn hm').stands hopen).1) (by omega)
    · have := hof.tag.symm.trans htag
      simpa using this

theorem gone_of_le (hi : i < n) (hs : ¬ Stands h i n) (hw : ¬ Waits h i n) {n' : Nat} (hle : n ≤ n') :
    ¬ Stands h i n' ∧ ¬ Waits h i n' := by
  induction hle with
  | refl => exact ⟨hs, hw⟩
  | step hle ih => exact gone_succ (Nat.lt_of_lt_of_le hi hle) ih.1 ih.2

/-- **The life of a scope.** Let calls announce scopes and feed pieces of text, and look at the tracker at any moment,
also within a piece. Its marks are those of the scopes that are open or wait, in the order of their announcements, and
an open mark is that of an open scope: one that a brace opened, the first that led deeper than where it was announced,
in one of the next three pieces, with no brace since that led back there. What neither waits nor is open never is
again. An open scope was announced less deep than the text is now, so none is open at depth 0; and the innermost one
is that of the open scopes that was announced last. -/
theorem calls_lifetime (calls : List (Call α)) :
    let h := calls.flatMap Call.steps
    calls.foldl Call.apply start = reached h h.length ∧
    ∀ n ≤ h.length,
      let s := reached h n
      (∃ ids : List Nat, ids.Pairwise (· < ·) ∧ (∀ i, i ∈ ids ↔ Stands h i n ∨ Waits h i n) ∧
        List.Forall₂ (fun i (m : Mark α) => h[i]? = some (.announce m.tag) ∧ m.depth = depthAt h i ∧
          (m.isOpen = true ↔ Stands h i n)) ids s.marks) ∧
      (∀ i < n, ¬ Stands h i n → ¬ Waits h i n → ∀ n' ≥ n, ¬ Stands h i n' ∧ ¬ Waits h i n') ∧
      (∀ m ∈ s.marks, m.isOpen = true → m.depth < s.depth) ∧
      (s.isInside = true ↔ ∃ i, Stands h i n) ∧
      (s.depth = 0 → s.isInside = false) ∧
      ∀ tag, s.innermost = some tag ↔
        ∃ i, Stands h i n ∧ h[i]? = some (.announce tag) ∧ ∀ i', Stands h i' n → i' ≤ i := by
  intro h
  refine ⟨?_, fun n hn => ?_⟩
  · rw [reached, List.take_length]
    exact (foldl_flatMap_steps calls start).symm
  intro s
  have hdeep : ∀ m ∈ s.marks, m.isOpen = true → m.depth < s.depth := by
    intro m hm hopen
    obtain ⟨i, hof⟩ := of_mem_marks hn hm
    exact hof.depth ▸ (hof.stands hopen).2
  obtain ⟨ids, hsorted, hids, hmarks⟩ := exists_ids hn
  refine ⟨⟨ids, hsorted, hids, hmarks.imp fun i m hof => ⟨hof.tag, hof.depth, hof.isOpen_iff⟩⟩,
    fun i hi hs hw n' hle => gone_of_le hi hs hw hle, hdeep, isInside_iff hn, fun hzero => ?_,
    fun tag => innermost_eq_some_iff hn⟩
  refine Bool.eq_false_iff.mpr fun hinside => ?_
  obtain ⟨m, hm, hopen⟩ := List.any_eq_true.mp hinside
  exact Nat.not_lt_zero _ (hzero ▸ hdeep m hm hopen)

/-- A function that is declared in another one: on its last line the inner one is the innermost until its brace, then
the outer one, and behind the line none is open. -/
theorem calls_lifetime_nested :
    let calls : List (Call String) := [.announce "Outer", .feed "Outer() \x7b".toList, .announce "Inner",
      .feed "Inner() \x7b\x7d\x7d".toList]
    let h := calls.flatMap Call.steps
    h.length = 24 ∧ (calls.foldl Call.apply start).depth = 0 ∧ (∀ i, ¬ Stands h i 24) ∧
      (∃ i, Stands h i 21 ∧ h[i]? = some (.announce "Inner") ∧ ∀ i', Stands h i' 21 → i' ≤ i) ∧
      ∃ i, Stands h i 22 ∧ h[i]? = some (.announce "Outer") ∧ ∀ i', Stands h i' 22 → i' ≤ i := by
  intro calls h
  obtain ⟨_, hlife⟩ := calls_lifetime calls
  obtain ⟨_, _, _, hinside, hzero, _⟩ := hlife 24 (by decide)
  obtain ⟨_, _, _, _, _, hinner⟩ := hlife 21 (by decide)
  obtain ⟨_, _, _, _, _, houter⟩ := hlife 22 (by decide)
  refine ⟨by decide, by decide, fun i hs => ?_, (hinner "Inner").mp (by decide), (houter "Outer").mp (by decide)⟩
  have hno := hzero (by decide)
  rw [hinside.mpr ⟨i, hs⟩] at hno
  cases hno

end Checkup.BraceScope
