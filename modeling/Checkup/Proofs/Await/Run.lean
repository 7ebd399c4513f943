import Mathlib.Data.List.Pairwise
import Checkup.Proofs.Location.Await
import Checkup.Proofs.Text.Mention

/-!
# Await statements in their runs

* `AwaitStatement.Uses`: what a statement awaits names something that another one binds. The test of the rules is the
  same, as statements bind identifiers (`AwaitStatement.dependsOn_iff`).
* `flatten_awaitRuns`: the runs one after the other are the statements of the file. So statements are known by their
  lines (`awaitRuns_increasing`), and so are the runs that they are in (`eq_of_line_eq`).
* `detect_of_awaitRuns`: rules about runs find in every file what the runs give, as a file without the word `await` has
  no runs.
-/

namespace Checkup

open Pattern

variable {content line target name : Text} {n : Nat} {s a : AwaitStatement} {run run' : List AwaitStatement}

/-! ## Statements -/

theorem isIdentifier_of_mem_boundNames (h : name ∈ boundNames target) : Text.isIdentifier name = true := by
  rw [boundNames] at h
  split at h
  · rename_i htarget
    rwa [List.mem_singleton.mp h]
  · obtain ⟨piece, _, hpiece⟩ := List.mem_filterMap.mp h
    dsimp only at hpiece
    split at hpiece
    · rename_i hname
      rwa [← Option.some.inj hpiece]
    · cases hpiece

namespace AwaitStatement

/-- Whether what is awaited names something that the other statement binds. -/
def Uses (s earlier : AwaitStatement) : Prop := ∃ name ∈ earlier.names, Text.Names s.call name

/-- What is known of a statement from its line. -/
theorem ofLine_spec (h : ofLine n line = some s) :
    s.line = n ∧ (∀ name ∈ s.names, Text.isIdentifier name = true) ∧ "await".toList <:+: line := by
  obtain ⟨m, target, hm, rfl⟩ := exists_match h
  refine ⟨rfl, fun name hname => isIdentifier_of_mem_boundNames hname, ?_⟩
  obtain ⟨pre, w, post, g, hof⟩ := find_of hm
  obtain ⟨_, u, _, _, _, hu, htakes⟩ := seqAll_takes (p := lit "await") hof.takes (by simp)
  rw [← literal_takes htakes, hof.text_eq]
  exact hu.trans ⟨pre, post, by simp⟩

theorem dependsOn_iff (h : ∀ name ∈ a.names, Text.isIdentifier name = true) :
    s.dependsOn a.names = true ↔ s.Uses a := by
  rw [dependsOn, List.any_eq_true]
  exact exists_congr fun name => and_congr_right fun hname => Text.mentions_iff (h name hname)

end AwaitStatement

/-! ## Runs -/

/-- The statements on numbered lines. -/
def AwaitStatement.ofLines (ls : List (Nat × Text)) : List AwaitStatement := ls.filterMap fun x => ofLine x.1 x.2

theorem flatten_awaitRunsFrom (run : List AwaitStatement) (ls : List (Nat × Text)) :
    (awaitRunsFrom run ls).flatten = run.reverse ++ AwaitStatement.ofLines ls := by
  induction ls generalizing run with
  | nil =>
    rw [awaitRunsFrom]
    split
    · rename_i h
      rw [List.isEmpty_iff.mp h]
      rfl
    · simp [AwaitStatement.ofLines]
  | cons x ls ih =>
    obtain ⟨n, line⟩ := x
    rw [awaitRunsFrom]
    cases h : AwaitStatement.ofLine n line with
    | some s => simp [AwaitStatement.ofLines, h, ih]
    | none =>
      dsimp only
      split <;> simp [AwaitStatement.ofLines, h, ih]

/-- **The runs one after the other are the statements of the file.** -/
theorem flatten_awaitRuns (content : Text) :
    (awaitRuns content).flatten = AwaitStatement.ofLines (numberedLines content) :=
  flatten_awaitRunsFrom [] _

theorem ne_nil_of_mem_awaitRunsFrom {ls : List (Nat × Text)} (h : run' ∈ awaitRunsFrom run ls) : run' ≠ [] := by
  induction ls generalizing run with
  | nil =>
    rw [awaitRunsFrom] at h
    split at h
    · cases h
    · rename_i hrun
      rw [List.mem_singleton.mp h]
      simpa using hrun
  | cons x ls ih =>
    rw [awaitRunsFrom] at h
    split at h
    · exact ih h
    · split at h
      · exact ih h
      · rename_i hrun
        rcases List.mem_cons.mp h with rfl | h
        · simp only [Bool.or_eq_true, not_or, List.isEmpty_iff] at hrun
          simpa using hrun.2
        · exact ih h

theorem ne_nil_of_mem_awaitRuns (h : run ∈ awaitRuns content) : run ≠ [] := ne_nil_of_mem_awaitRunsFrom h

/-- Whether the statements bind identifiers. -/
def BindsIdentifiers (run : List AwaitStatement) : Prop :=
  ∀ s ∈ run, ∀ name ∈ s.names, Text.isIdentifier name = true

theorem BindsIdentifiers.tail (h : BindsIdentifiers (a :: run)) : BindsIdentifiers run := (List.forall_mem_cons.mp h).2

theorem bindsIdentifiers_of_mem_awaitRuns (hr : run ∈ awaitRuns content) : BindsIdentifiers run := by
  intro s hs
  obtain ⟨x, _, hof⟩ := mem_awaitRuns hr hs
  exact (AwaitStatement.ofLine_spec hof).2.1

theorem numberedLines_increasing (t : Text) : (numberedLines t).Pairwise fun x y => x.1 < y.1 := by
  rw [numberedLines, List.pairwise_map]
  have hlt : ((Text.lines t).zipIdx.map Prod.snd).Pairwise (· < ·) := by
    rw [List.zipIdx_map_snd]
    exact List.pairwise_lt_range' 1
  rw [List.pairwise_map] at hlt
  exact hlt.imp fun h => Nat.succ_lt_succ h

/-- The statements come in the order of their lines. -/
theorem awaitRuns_increasing (content : Text) : (awaitRuns content).flatten.Pairwise fun a b => a.line < b.line := by
  rw [flatten_awaitRuns]
  refine (numberedLines_increasing content).filterMap _ fun x y hxy a ha b hb => ?_
  rwa [(AwaitStatement.ofLine_spec ha).1, (AwaitStatement.ofLine_spec hb).1]

/-- The line of a statement tells which run it is in. -/
theorem eq_of_line_eq (hr : run ∈ awaitRuns content) (hr' : run' ∈ awaitRuns content) (hs : s ∈ run) (ha : a ∈ run')
    (h : s.line = a.line) : run = run' := by
  have hlines : (awaitRuns content).Pairwise fun r r' => ∀ x ∈ r, ∀ y ∈ r', x.line ≠ y.line :=
    (List.pairwise_flatten.mp (awaitRuns_increasing content)).2.imp fun hlt x hx y hy => Nat.ne_of_lt (hlt x hx y hy)
  have : Std.Symm fun r r' : List AwaitStatement => ∀ x ∈ r, ∀ y ∈ r', x.line ≠ y.line :=
    ⟨fun r r' hne x hx y hy => (hne y hy x hx).symm⟩
  by_contra hne
  exact hlines.forall hr hr' hne s hs a ha h

theorem awaitRuns_eq_nil (h : content.has "await" = false) : awaitRuns content = [] := by
  refine List.eq_nil_iff_forall_not_mem.mpr fun run hr => ?_
  obtain ⟨s, hs⟩ := List.exists_mem_of_ne_nil run (ne_nil_of_mem_awaitRuns hr)
  obtain ⟨⟨n, line⟩, hline, hof⟩ := mem_awaitRuns hr hs
  have hmem : line ∈ Text.lines content := List.mem_of_getElem? (mem_numberedLines.mp hline).2
  have hawait := (AwaitStatement.ofLine_spec hof).2.2.trans (Text.infix_of_mem_lines hmem)
  rw [Text.has, Text.occurs_iff.mpr hawait] at h
  cases h

/-- A rule that looks at the runs of files with the word `await` finds in every file what the runs give. -/
theorem detect_of_awaitRuns {r : Rule} {spots : List AwaitStatement → List Spot} (hclues : r.clues = [["await"]])
    (h : r.ReportsSpots fun _ content => (awaitRuns content).flatMap spots) (path : String) (content : Text) :
    r.detect path content = .ok (((awaitRuns content).flatMap spots).map (r.info.finding path)) := by
  rw [h.detect_eq]
  cases hhas : content.has "await" with
  | true => simp [Rule.hasClues, hclues, hhas]
  | false => simp [Rule.hasClues, hclues, hhas, awaitRuns_eq_nil hhas]

end Checkup
