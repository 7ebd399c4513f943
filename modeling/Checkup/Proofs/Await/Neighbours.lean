import Mathlib.Data.List.Flatten
import Checkup.Proofs.Await.Run

/-!
# Neighbours among the await statements of a file

Statements with nothing but blank and comment lines between them are in one run, and any other line between them parts
them (`awaitRuns_neighbours`).

* `exists_pending`: what the lines up to a place leave behind: the runs that have ended and the one that is pending.
* `awaitRunsFrom_quiet`, `awaitRunsFrom_parted`: what lines without a statement do to the pending run.
-/

namespace Checkup

variable {content line : Text} {n : Nat} {a b : AwaitStatement} {run : List AwaitStatement}
  {ls before between behind : List (Nat × Text)} {x y : Nat × Text}

/-- Whether the line is blank or a comment. -/
def IsQuiet (line : Text) : Prop := Text.isBlank line = true ∨ isCommentLine line = true

/-! ## The pending run -/

/-- Quiet lines are passed over. -/
theorem IsQuiet.skipped (h : IsQuiet line) (run : List AwaitStatement) :
    (Text.isBlank line || isCommentLine line || run.isEmpty) = true := by
  rw [Bool.or_eq_true, Bool.or_eq_true]
  exact Or.inl h

/-- The lines up to a place end some runs and leave one pending, whatever follows. -/
theorem exists_pending (run : List AwaitStatement) (ls : List (Nat × Text)) :
    ∃ done pending, ∀ rest, awaitRunsFrom run (ls ++ rest) = done ++ awaitRunsFrom pending rest := by
  induction ls generalizing run with
  | nil => exact ⟨[], run, fun rest => rfl⟩
  | cons x ls ih =>
    obtain ⟨n, line⟩ := x
    cases hof : AwaitStatement.ofLine n line with
    | some s =>
      obtain ⟨done, pending, hrest⟩ := ih (s :: run)
      exact ⟨done, pending, fun rest => by rw [List.cons_append, awaitRunsFrom, hof]; exact hrest rest⟩
    | none =>
      by_cases hskip : (Text.isBlank line || isCommentLine line || run.isEmpty) = true
      · obtain ⟨done, pending, hrest⟩ := ih run
        refine ⟨done, pending, fun rest => ?_⟩
        rw [List.cons_append, awaitRunsFrom, hof]
        exact (if_pos hskip).trans (hrest rest)
      · obtain ⟨done, pending, hrest⟩ := ih []
        refine ⟨run.reverse :: done, pending, fun rest => ?_⟩
        rw [List.cons_append, awaitRunsFrom, hof]
        exact (if_neg hskip).trans (congrArg (run.reverse :: ·) (hrest rest))

/-- A line with a statement adds it to the pending run. -/
theorem awaitRunsFrom_statement (h : AwaitStatement.ofLine x.1 x.2 = some a) (rest : List (Nat × Text)) :
    awaitRunsFrom run (x :: rest) = awaitRunsFrom (a :: run) rest := by
  obtain ⟨n, line⟩ := x
  rw [awaitRunsFrom, h]

/-- Lines that are skipped leave the pending run as it is. -/
theorem awaitRunsFrom_skipped (hnone : ∀ x ∈ ls, AwaitStatement.ofLine x.1 x.2 = none)
    (hskip : ∀ x ∈ ls, (Text.isBlank x.2 || isCommentLine x.2 || run.isEmpty) = true) (rest : List (Nat × Text)) :
    awaitRunsFrom run (ls ++ rest) = awaitRunsFrom run rest := by
  induction ls with
  | nil => rfl
  | cons x ls ih =>
    obtain ⟨n, line⟩ := x
    obtain ⟨hof, hnone⟩ := List.forall_mem_cons.mp hnone
    obtain ⟨hline, hskip⟩ := List.forall_mem_cons.mp hskip
    rw [List.cons_append, awaitRunsFrom, hof]
    exact (if_pos hline).trans (ih hnone hskip)

/-- Quiet lines are skipped. -/
theorem awaitRunsFrom_quiet (hnone : ∀ x ∈ ls, AwaitStatement.ofLine x.1 x.2 = none) (hquiet : ∀ x ∈ ls, IsQuiet x.2)
    (rest : List (Nat × Text)) : awaitRunsFrom run (ls ++ rest) = awaitRunsFrom run rest :=
  awaitRunsFrom_skipped hnone (fun x hx => (hquiet x hx).skipped run) rest

/-- With no run pending, all lines without a statement are skipped. -/
theorem awaitRunsFrom_none (hnone : ∀ x ∈ ls, AwaitStatement.ofLine x.1 x.2 = none) (rest : List (Nat × Text)) :
    awaitRunsFrom [] (ls ++ rest) = awaitRunsFrom [] rest :=
  awaitRunsFrom_skipped hnone (fun _ _ => Bool.or_true _) rest

/-- Lines without a statement end the pending run if one of them is not quiet. -/
theorem awaitRunsFrom_parted (hrun : run ≠ []) (hnone : ∀ x ∈ ls, AwaitStatement.ofLine x.1 x.2 = none)
    (hnoisy : ∃ x ∈ ls, ¬ IsQuiet x.2) (rest : List (Nat × Text)) :
    awaitRunsFrom run (ls ++ rest) = run.reverse :: awaitRunsFrom [] rest := by
  induction ls with
  | nil =>
    obtain ⟨x, hx, -⟩ := hnoisy
    cases hx
  | cons x ls ih =>
    obtain ⟨n, line⟩ := x
    obtain ⟨hof, hnone⟩ := List.forall_mem_cons.mp hnone
    rw [List.cons_append, awaitRunsFrom, hof]
    by_cases hquiet : IsQuiet line
    · obtain ⟨y, hy, hynoisy⟩ := hnoisy
      have htail : ∃ x ∈ ls, ¬ IsQuiet x.2 := by
        rcases List.mem_cons.mp hy with rfl | hy
        · exact absurd hquiet hynoisy
        · exact ⟨y, hy, hynoisy⟩
      exact (if_pos (hquiet.skipped run)).trans (ih hnone htail)
    · have hend : ¬ (Text.isBlank line || isCommentLine line || run.isEmpty) = true := by
        rw [Bool.or_eq_true, Bool.or_eq_true, List.isEmpty_iff]
        exact fun h => h.elim hquiet hrun
      exact (if_neg hend).trans (congrArg (run.reverse :: ·) (awaitRunsFrom_none hnone rest))

/-- The pending run is the start of the next one that ends. -/
theorem exists_run_of_pending (hrun : run ≠ []) (ls : List (Nat × Text)) :
    ∃ run' ∈ awaitRunsFrom run ls, ∀ s ∈ run, s ∈ run' := by
  induction ls generalizing run with
  | nil =>
    refine ⟨run.reverse, ?_, fun s hs => List.mem_reverse.mpr hs⟩
    rw [awaitRunsFrom, if_neg (by rwa [List.isEmpty_iff])]
    exact List.mem_singleton_self _
  | cons x ls ih =>
    obtain ⟨n, line⟩ := x
    rw [awaitRunsFrom]
    split
    · rename_i s _
      obtain ⟨run', hrun', hall⟩ := ih (List.cons_ne_nil s run)
      exact ⟨run', hrun', fun s' hs' => hall s' (List.mem_cons_of_mem s hs')⟩
    · split
      · exact ih hrun
      · exact ⟨run.reverse, List.mem_cons_self, fun s hs => List.mem_reverse.mpr hs⟩

/-! ## Two statements in a row -/

/-- Statements in a row are those of two lines with no statement between them. -/
theorem exists_lines_of_neighbours (h : [a, b] <:+: AwaitStatement.ofLines ls) :
    ∃ before x between y behind, ls = before ++ x :: (between ++ y :: behind) ∧
      AwaitStatement.ofLine x.1 x.2 = some a ∧ AwaitStatement.ofLine y.1 y.2 = some b ∧
      ∀ z ∈ between, AwaitStatement.ofLine z.1 z.2 = none := by
  obtain ⟨front, rest, h⟩ := h
  rw [AwaitStatement.ofLines, List.append_assoc, eq_comm, List.filterMap_eq_append_iff] at h
  obtain ⟨l, l', rfl, -, h⟩ := h
  obtain ⟨skipped, x, l, rfl, -, hx, h⟩ := List.filterMap_eq_cons_iff.mp h
  obtain ⟨between, y, behind, rfl, hnone, hy, -⟩ := List.filterMap_eq_cons_iff.mp h
  exact ⟨l ++ skipped, x, between, y, behind, by simp, hx, hy, hnone⟩

/-- Of numbered lines, those between two are the ones with a number between theirs. -/
theorem mem_between_iff (h : numberedLines content = before ++ x :: (between ++ y :: behind)) :
    (n, line) ∈ between ↔ (n, line) ∈ numberedLines content ∧ x.1 < n ∧ n < y.1 := by
  have hsorted := numberedLines_increasing content
  rw [h] at hsorted ⊢
  obtain ⟨-, hrest, hbefore⟩ := List.pairwise_append.mp hsorted
  obtain ⟨hx, hrest⟩ := List.pairwise_cons.mp hrest
  obtain ⟨-, hbehind, hy⟩ := List.pairwise_append.mp hrest
  have hbehind := (List.pairwise_cons.mp hbehind).1
  constructor
  · intro hmem
    exact ⟨by simp [hmem], hx (n, line) (by simp [hmem]), hy (n, line) hmem y (by simp)⟩
  · rintro ⟨hmem, hlow, hhigh⟩
    simp only [List.mem_append, List.mem_cons] at hmem
    rcases hmem with hmem | rfl | hmem | rfl | hmem
    · exact absurd (hbefore _ hmem x (by simp)) (Nat.lt_asymm hlow)
    · exact absurd hlow (Nat.lt_irrefl _)
    · exact hmem
    · exact absurd hhigh (Nat.lt_irrefl _)
    · exact absurd (hbehind _ hmem) (Nat.lt_asymm hhigh)

/-- Two statements are in one run if and only if the lines between them are quiet. -/
theorem sameRun_iff_quiet (h : numberedLines content = before ++ x :: (between ++ y :: behind))
    (hx : AwaitStatement.ofLine x.1 x.2 = some a) (hy : AwaitStatement.ofLine y.1 y.2 = some b)
    (hnone : ∀ z ∈ between, AwaitStatement.ofLine z.1 z.2 = none) :
    (∃ run ∈ awaitRuns content, a ∈ run ∧ b ∈ run) ↔ ∀ z ∈ between, IsQuiet z.2 := by
  obtain ⟨done, pending, hpending⟩ := exists_pending [] before
  have hruns : awaitRuns content = done ++ awaitRunsFrom (a :: pending) (between ++ y :: behind) := by
    rw [awaitRuns, h, hpending, awaitRunsFrom_statement hx]
  constructor
  · rintro ⟨run, hrun, ha, hb⟩
    by_contra hnoisy
    have hparted := awaitRunsFrom_parted (List.cons_ne_nil a pending) hnone (by simpa using hnoisy) (y :: behind)
    rw [hparted, awaitRunsFrom_statement hy] at hruns
    -- the run of the first statement has ended, and the second one is in a later run
    obtain ⟨later, hlater, hmem⟩ := exists_run_of_pending (List.cons_ne_nil b []) behind
    have hended : (a :: pending).reverse ∈ awaitRuns content := by
      rw [hruns]
      simp
    have hfirst : run = (a :: pending).reverse := eq_of_line_eq hrun hended ha (by simp) rfl
    have hincreasing := awaitRuns_increasing content
    rw [hruns, List.flatten_append, List.flatten_cons] at hincreasing
    have hlt := (List.pairwise_append.mp (List.pairwise_append.mp hincreasing).2.1).2.2 b (hfirst ▸ hb) b
      (List.mem_flatten.mpr ⟨later, hlater, hmem b (List.mem_singleton_self b)⟩)
    exact Nat.lt_irrefl _ hlt
  · intro hquiet
    rw [awaitRunsFrom_quiet hnone hquiet, awaitRunsFrom_statement hy] at hruns
    obtain ⟨run, hrun, hmem⟩ := exists_run_of_pending (List.cons_ne_nil b (a :: pending)) behind
    exact ⟨run, by rw [hruns]; exact List.mem_append_right done hrun, hmem a (by simp), hmem b (by simp)⟩

/-- **Neighbours among the statements.** The runs of a file, one after the other, are the statements that its lines
hold, in their order. No run is empty, and two statements in a row are in one run if and only if each line between
theirs is blank or a comment. -/
theorem awaitRuns_neighbours (content : Text) :
    (awaitRuns content).flatten = (numberedLines content).filterMap (fun x => AwaitStatement.ofLine x.1 x.2) ∧
      (∀ run ∈ awaitRuns content, run ≠ []) ∧
      ∀ a b, [a, b] <:+: (awaitRuns content).flatten →
        ((∃ run ∈ awaitRuns content, a ∈ run ∧ b ∈ run) ↔
          ∀ n line, (n, line) ∈ numberedLines content → a.line < n → n < b.line →
            Text.isBlank line = true ∨ isCommentLine line = true) := by
  refine ⟨flatten_awaitRuns content, fun run hrun => ne_nil_of_mem_awaitRuns hrun, fun a b hab => ?_⟩
  rw [flatten_awaitRuns] at hab
  obtain ⟨before, x, between, y, behind, hlines, hx, hy, hnone⟩ := exists_lines_of_neighbours hab
  rw [sameRun_iff_quiet hlines hx hy hnone, (AwaitStatement.ofLine_spec hx).1, (AwaitStatement.ofLine_spec hy).1]
  constructor
  · exact fun hquiet n line hmem hlow hhigh => hquiet (n, line) ((mem_between_iff hlines).mpr ⟨hmem, hlow, hhigh⟩)
  · rintro hall ⟨n, line⟩ hmem
    obtain ⟨hline, hlow, hhigh⟩ := (mem_between_iff hlines).mp hmem
    exact hall n line hline hlow hhigh

/-- A comment between two statements leaves them in one run, and a call parts them. -/
theorem awaitRuns_neighbours_log :
    let content :=
      "const a = await one();\n\n// next\nconst b = await two();\nlog(a);\nconst c = await three();\n".toList
    let a : AwaitStatement := ⟨1, 1, ["a".toList], " one();".toList⟩
    let b : AwaitStatement := ⟨4, 1, ["b".toList], " two();".toList⟩
    let c : AwaitStatement := ⟨6, 1, ["c".toList], " three();".toList⟩
    [a, b] <:+: (awaitRuns content).flatten ∧ (∃ run ∈ awaitRuns content, a ∈ run ∧ b ∈ run) ∧
      [b, c] <:+: (awaitRuns content).flatten ∧ ¬ ∃ run ∈ awaitRuns content, b ∈ run ∧ c ∈ run := by
  intro content a b c
  have hlines : numberedLines content = [(1, "const a = await one();".toList), (2, []), (3, "// next".toList),
      (4, "const b = await two();".toList), (5, "log(a);".toList), (6, "const c = await three();".toList)] := by
    decide +kernel
  have hflatten : (awaitRuns content).flatten = [a, b, c] := by decide +kernel
  have hab : [a, b] <:+: (awaitRuns content).flatten := ⟨[], [c], by rw [hflatten]; rfl⟩
  have hbc : [b, c] <:+: (awaitRuns content).flatten := ⟨[a], [], by rw [hflatten]; rfl⟩
  obtain ⟨-, -, hneighbours⟩ := awaitRuns_neighbours content
  refine ⟨hab, (hneighbours a b hab).mpr fun n line hmem hlow hhigh => ?_, hbc, fun hrun => ?_⟩
  · rw [hlines] at hmem
    simp only [List.mem_cons, List.not_mem_nil, or_false, Prod.mk.injEq] at hmem
    rcases hmem with ⟨rfl, -⟩ | ⟨-, rfl⟩ | ⟨-, rfl⟩ | ⟨rfl, -⟩ | ⟨rfl, -⟩ | ⟨rfl, -⟩
    · exact absurd hlow (by decide)
    · exact Or.inl rfl
    · exact Or.inr (by decide +kernel)
    · exact absurd hhigh (by decide)
    · exact absurd hhigh (by decide)
    · exact absurd hhigh (by decide)
  · have hcall := (hneighbours b c hbc).mp hrun 5 "log(a);".toList (by rw [hlines]; simp) (by decide) (by decide)
    exact absurd hcall (by decide +kernel)

end Checkup
