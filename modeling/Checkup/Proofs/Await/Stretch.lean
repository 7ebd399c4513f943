import Mathlib.Data.List.Chain
import Checkup.Proofs.Await.Run

/-!
# Stretches of independent awaits

`independentStretches` cuts a run in front of each statement that uses something bound before it in its stretch
(`isCut_independentStretches`), and goes on with that statement alone. Statements before it are lost for the next
stretch, so statements in a row that are independent of each other may lie in two stretches.

* `IsCut`: such a cut of a run.
* `HasTriple`: three statements in a row that are independent of each other.
* `Direct`: each statement that uses something bound before it uses something that the statement right before it binds.
  In such a run statements in a row that are independent lie in one stretch (`IsCut.exists_infix`).
* `asyncWaterfall_reports`: which runs the rule reports.
-/

namespace Checkup

variable {content : Text} {s : AwaitStatement} {run run' st st' : List AwaitStatement}
  {sts sts' : List (List AwaitStatement)}

/-- Whether no statement uses what one before it binds. -/
def Independent (ss : List AwaitStatement) : Prop := ss.Pairwise fun a b => ¬ b.Uses a

/-- Whether there are three statements in a row of which none uses what one before it binds. -/
def HasTriple (run : List AwaitStatement) : Prop := ∃ a b c, [a, b, c] <:+: run ∧ Independent [a, b, c]

/-- Whether each statement that uses something bound before it uses something that the one right before it binds. -/
def Direct (run : List AwaitStatement) : Prop :=
  ∀ before a between b behind, run = before ++ a :: (between ++ b :: behind) → b.Uses a →
    ∃ p ∈ (a :: between).getLast?, b.Uses p

/-- Stretches of a run. Each is independent, and the first statement of the next one is not independent of it. -/
structure IsCut (run : List AwaitStatement) (sts : List (List AwaitStatement)) : Prop where
  flatten_eq : sts.flatten = run
  ne_nil : ∀ st ∈ sts, st ≠ []
  independent : ∀ st ∈ sts, Independent st
  uses : sts.IsChain fun st next => ∃ b ∈ next.head?, ∃ a ∈ st, b.Uses a

/-! ## The cut of the rule -/

theorem dependsOn_flatMap_iff (h : BindsIdentifiers st) :
    s.dependsOn (st.flatMap AwaitStatement.names) = true ↔ ∃ a ∈ st, s.Uses a := by
  simp only [AwaitStatement.dependsOn, List.any_eq_true, List.mem_flatMap, AwaitStatement.Uses]
  constructor
  · rintro ⟨name, ⟨a, ha, hname⟩, hmentions⟩
    exact ⟨a, ha, name, hname, (Text.mentions_iff (h a ha name hname)).mp hmentions⟩
  · rintro ⟨a, ha, name, hname, hnames⟩
    exact ⟨name, ⟨a, ha, hname⟩, (Text.mentions_iff (h a ha name hname)).mpr hnames⟩

/-- The first stretch starts with the statements that are there already. -/
theorem independentStretches_cons (st run : List AwaitStatement) :
    ∃ next rest, independentStretches st run = next :: rest ∧ st.reverse <+: next := by
  induction run generalizing st with
  | nil => exact ⟨_, _, rfl, List.prefix_refl _⟩
  | cons s run ih =>
    rw [independentStretches]
    split
    · exact ⟨_, _, rfl, List.prefix_refl _⟩
    · obtain ⟨next, rest, h, hlead⟩ := ih (s :: st)
      rw [List.reverse_cons] at hlead
      exact ⟨next, rest, h, (List.prefix_append _ _).trans hlead⟩

theorem isCut_append (hst : BindsIdentifiers st) (hrun : BindsIdentifiers run) (hind : Independent st.reverse)
    (hne : st ≠ []) : IsCut (st.reverse ++ run) (independentStretches st run) := by
  induction run generalizing st with
  | nil =>
    rw [independentStretches]
    exact ⟨by simp, by simpa using hne, by simpa using hind, .singleton _⟩
  | cons s run ih =>
    obtain ⟨hs, hrun⟩ := List.forall_mem_cons.mp hrun
    rw [independentStretches]
    split
    · rename_i hdep
      obtain ⟨a, ha, huses⟩ := (dependsOn_flatMap_iff hst).mp hdep
      have hcut : IsCut (s :: run) (independentStretches [s] run) :=
        ih (List.forall_mem_singleton.mpr hs) hrun (List.pairwise_singleton _ s) (List.cons_ne_nil s [])
      refine ⟨by rw [List.flatten_cons, hcut.flatten_eq], List.forall_mem_cons.mpr ⟨by simpa using hne, hcut.ne_nil⟩,
        List.forall_mem_cons.mpr ⟨hind, hcut.independent⟩, List.isChain_cons.mpr ⟨fun next hnext => ?_, hcut.uses⟩⟩
      obtain ⟨next', rest, hrest, tail, rfl⟩ := independentStretches_cons [s] run
      rw [hrest, List.head?_cons, Option.mem_some_iff] at hnext
      exact ⟨s, by simp [← hnext], a, by simpa using ha, huses⟩
    · rename_i hdep
      have hind' : Independent (s :: st).reverse := by
        rw [List.reverse_cons]
        refine List.pairwise_append.mpr ⟨hind, List.pairwise_singleton _ s, fun a ha b hb huses => hdep ?_⟩
        rw [List.mem_singleton.mp hb] at huses
        exact (dependsOn_flatMap_iff hst).mpr ⟨a, List.mem_reverse.mp ha, huses⟩
      have hcut := ih (List.forall_mem_cons.mpr ⟨hs, hst⟩) hrun hind' (List.cons_ne_nil s st)
      rwa [List.reverse_cons, List.append_assoc] at hcut

/-- **The rule cuts a run in front of each statement that is not independent of its stretch.** -/
theorem isCut_independentStretches (hrun : BindsIdentifiers run) (hne : run ≠ []) :
    IsCut run (independentStretches [] run) := by
  obtain ⟨s, run, rfl⟩ := List.exists_cons_of_ne_nil hne
  obtain ⟨hs, hrun⟩ := List.forall_mem_cons.mp hrun
  exact isCut_append (List.forall_mem_singleton.mpr hs) hrun (List.pairwise_singleton _ s) (List.cons_ne_nil s [])

/-! ## A run has one cut -/

namespace IsCut

theorem tail (h : IsCut run (st :: sts)) : IsCut sts.flatten sts where
  flatten_eq := rfl
  ne_nil := (List.forall_mem_cons.mp h.ne_nil).2
  independent := (List.forall_mem_cons.mp h.independent).2
  uses := (List.isChain_cons.mp h.uses).2

/-- The statement behind a stretch uses something that the stretch binds. -/
theorem exists_uses (h : IsCut run (st :: sts)) (hs : sts.flatten = s :: run') : ∃ a ∈ st, s.Uses a := by
  cases sts with
  | nil => cases hs
  | cons next sts =>
    obtain ⟨b, next, rfl⟩ := List.exists_cons_of_ne_nil (h.tail.ne_nil _ List.mem_cons_self)
    obtain ⟨b', hb', a, ha, huses⟩ := (List.isChain_cons_cons.mp h.uses).1
    rw [List.head?_cons, Option.mem_some_iff] at hb'
    obtain ⟨rfl, _⟩ := List.cons.inj hs
    exact ⟨a, ha, hb' ▸ huses⟩

/-- The first stretch of a cut is as long as that of any other one. -/
theorem first_length_le (h : IsCut run (st :: sts)) (h' : IsCut run (st' :: sts')) : st'.length ≤ st.length := by
  by_contra! hlt
  obtain ⟨x, rfl⟩ : st <+: st' :=
    List.prefix_of_prefix_length_le ⟨_, h.flatten_eq⟩ ⟨_, h'.flatten_eq⟩ (Nat.le_of_lt hlt)
  cases x with
  | nil => simp at hlt
  | cons b x =>
    have hbehind : sts.flatten = b :: (x ++ sts'.flatten) := by
      have hboth : st ++ sts.flatten = (st ++ b :: x) ++ sts'.flatten := h.flatten_eq.trans h'.flatten_eq.symm
      rwa [List.append_assoc, List.append_cancel_left_eq] at hboth
    obtain ⟨a, ha, huses⟩ := h.exists_uses hbehind
    exact (List.pairwise_append.mp (h'.independent _ List.mem_cons_self)).2.2 a ha b List.mem_cons_self huses

theorem unique (h : IsCut run sts) (h' : IsCut run sts') : sts = sts' := by
  have hnil {sts : List (List AwaitStatement)} (h : IsCut [] sts) : sts = [] :=
    List.eq_nil_iff_forall_not_mem.mpr fun st hst => h.ne_nil st hst (List.flatten_eq_nil_iff.mp h.flatten_eq st hst)
  induction sts generalizing run sts' with
  | nil =>
    obtain rfl := h.flatten_eq
    exact (hnil h').symm
  | cons st sts ih =>
    cases sts' with
    | nil =>
      obtain rfl := h'.flatten_eq
      cases hnil h
    | cons st' sts' =>
      have hboth : st ++ sts.flatten = st' ++ sts'.flatten := h.flatten_eq.trans h'.flatten_eq.symm
      obtain ⟨rfl, hrest⟩ := List.append_inj hboth (Nat.le_antisymm (h'.first_length_le h) (h.first_length_le h'))
      rw [ih h.tail (hrest ▸ h'.tail)]

end IsCut

/-! ## Statements in a row -/

theorem Direct.of_append (h : Direct (st ++ run)) : Direct run := by
  rintro before a between b behind rfl huses
  exact h (st ++ before) a between b behind (List.append_assoc _ _ _).symm huses

/-- In a run where statements use what is bound right before them, independent statements in a row are in one stretch:
where a stretch ends the next statement uses what the last one binds. -/
theorem IsCut.exists_infix (h : IsCut run sts) (hdirect : Direct run) {w : List AwaitStatement} (hw : w <:+: run)
    (hne : w ≠ []) (hind : Independent w) : ∃ st ∈ sts, w <:+: st := by
  induction sts generalizing run with
  | nil =>
    rw [← h.flatten_eq] at hw
    exact absurd (List.infix_nil.mp hw) hne
  | cons st sts ih =>
    have hrun : st ++ sts.flatten = run := h.flatten_eq
    have later (hw : w <:+: sts.flatten) : ∃ st' ∈ st :: sts, w <:+: st' := by
      obtain ⟨st', hst', hw⟩ := ih h.tail (hrun ▸ hdirect).of_append hw
      exact ⟨st', List.mem_cons_of_mem st hst', hw⟩
    rw [← hrun] at hw
    rcases List.infix_append_iff.mp hw with hw | hw | ⟨u, v, rfl, hu, hv⟩
    · exact ⟨st, List.mem_cons_self, hw⟩
    · exact later hw
    cases v with
    | nil =>
      rw [List.append_nil]
      exact ⟨st, List.mem_cons_self, hu.isInfix⟩
    | cons b v =>
      by_cases hunil : u = []
      · rw [hunil, List.nil_append] at later ⊢
        exact later hv.isInfix
      -- the statements go over the end of the stretch
      exfalso
      obtain ⟨behind, hbehind⟩ := hv
      obtain ⟨a, ha, huses⟩ := h.exists_uses hbehind.symm
      obtain ⟨before, between, rfl⟩ := List.append_of_mem ha
      obtain ⟨p, hp, huses⟩ := hdirect before a between b (v ++ behind) (by rw [← hrun, ← hbehind]; simp) huses
      have hlast : u.getLast? = (a :: between).getLast? := by
        obtain ⟨front, hfront⟩ := hu
        rw [← List.getLast?_append_of_ne_nil front hunil, hfront,
          List.getLast?_append_of_ne_nil _ (List.cons_ne_nil a between)]
      rw [← hlast] at hp
      exact (List.pairwise_append.mp hind).2.2 p (List.mem_of_mem_getLast? hp) b List.mem_cons_self huses

/-! ## What the rule reports -/

theorem IsCut.hasTriple (h : IsCut run sts) (hst : st ∈ sts) (hlen : 3 ≤ st.length) : HasTriple run := by
  obtain ⟨a, b, c, rest, rfl⟩ : ∃ a b c rest, st = a :: b :: c :: rest := by
    match st, hlen with
    | a :: b :: c :: rest, _ => exact ⟨a, b, c, rest, rfl⟩
  have hfirst : [a, b, c] <+: a :: b :: c :: rest := ⟨rest, rfl⟩
  refine ⟨a, b, c, ?_, (h.independent _ hst).sublist hfirst.sublist⟩
  rw [← h.flatten_eq]
  exact hfirst.isInfix.trans (List.infix_of_mem_flatten hst)

theorem IsCut.hasTriple_iff (h : IsCut run sts) (hdirect : Direct run) : HasTriple run ↔ ∃ st ∈ sts, 3 ≤ st.length := by
  constructor
  · rintro ⟨a, b, c, hrow, hind⟩
    obtain ⟨st, hst, hw⟩ := h.exists_infix hdirect hrow (List.cons_ne_nil a _) hind
    exact ⟨st, hst, hw.length_le⟩
  · rintro ⟨st, hst, hlen⟩
    exact h.hasTriple hst hlen

/-- There is a spot for a stretch if it is long enough, at its first statement. -/
theorem waterfallSpot_eq_some {spot : Spot} (h : waterfallSpot st = some spot) :
    3 ≤ st.length ∧ ∃ s ∈ st, spot.line = s.line ∧ spot.column = s.column := by
  unfold waterfallSpot at h
  split at h
  · cases h
    exact ⟨by simp, _, List.mem_cons_self, rfl, rfl⟩
  · cases h

theorem exists_waterfallSpot (h : 3 ≤ st.length) : ∃ spot, waterfallSpot st = some spot := by
  match st, h with
  | a :: b :: c :: rest, _ => exact ⟨_, rfl⟩

/-- Spots at statements of a run are spots for its stretches. -/
theorem exists_spot_iff (hr : run ∈ awaitRuns content) :
    (∃ spot ∈ (awaitRuns content).flatMap fun run => (independentStretches [] run).filterMap waterfallSpot,
      ∃ s ∈ run, spot.line = s.line ∧ spot.column = s.column) ↔ ∃ st ∈ independentStretches [] run, 3 ≤ st.length := by
  simp only [List.mem_flatMap, List.mem_filterMap]
  constructor
  · rintro ⟨spot, ⟨run', hr', st, hst, hspot⟩, s, hs, hline, _⟩
    obtain ⟨hlen, a, ha, hline', _⟩ := waterfallSpot_eq_some hspot
    have hmem : a ∈ run' := (mem_of_mem_independentStretches hst ha).resolve_left List.not_mem_nil
    obtain rfl := eq_of_line_eq hr hr' hs hmem (hline.symm.trans hline')
    exact ⟨st, hst, hlen⟩
  · rintro ⟨st, hst, hlen⟩
    obtain ⟨spot, hspot⟩ := exists_waterfallSpot hlen
    obtain ⟨_, s, hs, hplace⟩ := waterfallSpot_eq_some hspot
    have hmem : s ∈ run := (mem_of_mem_independentStretches hst hs).resolve_left List.not_mem_nil
    exact ⟨spot, ⟨run, hr, st, hst, hspot⟩, s, hmem, hplace⟩

/-- **Awaits in a row.** The rule reports a run if one of its stretches has three statements. Such a run has three
statements in a row that are independent of each other. The converse holds of runs in which statements use what is bound
right before them. -/
theorem asyncWaterfall_reports (hr : run ∈ awaitRuns content) (path : String) :
    ∃ findings, asyncWaterfall.detect path content = .ok findings ∧
      let reported := ∃ f ∈ findings, ∃ s ∈ run, f.location = ⟨path, s.line, s.column⟩
      (∃ sts, IsCut run sts) ∧ (∀ sts, IsCut run sts → (reported ↔ ∃ st ∈ sts, 3 ≤ st.length)) ∧
      (reported → HasTriple run) ∧ (Direct run → (reported ↔ HasTriple run)) := by
  refine ⟨_, detect_of_awaitRuns (r := asyncWaterfall) rfl rfl path content, ?_⟩
  have hcut := isCut_independentStretches (bindsIdentifiers_of_mem_awaitRuns hr) (ne_nil_of_mem_awaitRuns hr)
  have hreported := exists_spot_iff hr
  simp only [List.mem_map, exists_exists_and_eq_and, RuleInfo.finding, Location.mk.injEq, true_and, hreported]
  refine ⟨⟨_, hcut⟩, fun sts hsts => by rw [hcut.unique hsts], ?_, fun hdirect => (hcut.hasTriple_iff hdirect).symm⟩
  rintro ⟨st, hst, hlen⟩
  exact hcut.hasTriple hst hlen

/-- Behind a statement that uses what is bound right before it, three independent statements are reported. -/
theorem asyncWaterfall_reports_behind :
    let content :=
      "const a = await one();\nconst b = await two(a);\nconst c = await three();\nconst d = await four();\n".toList
    let a : AwaitStatement := ⟨1, 1, ["a".toList], " one();".toList⟩
    let b : AwaitStatement := ⟨2, 1, ["b".toList], " two(a);".toList⟩
    let c : AwaitStatement := ⟨3, 1, ["c".toList], " three();".toList⟩
    let d : AwaitStatement := ⟨4, 1, ["d".toList], " four();".toList⟩
    [a, b, c, d] ∈ awaitRuns content ∧ IsCut [a, b, c, d] [[a], [b, c, d]] ∧
      ∃ findings, asyncWaterfall.detect "a.ts" content = .ok findings ∧
        ∃ f ∈ findings, ∃ s ∈ [a, b, c, d], f.location = ⟨"a.ts", s.line, s.column⟩ := by
  intro content a b c d
  have hr : [a, b, c, d] ∈ awaitRuns content := by decide +kernel
  have hcut : IsCut [a, b, c, d] [[a], [b, c, d]] :=
    isCut_independentStretches (bindsIdentifiers_of_mem_awaitRuns hr) (ne_nil_of_mem_awaitRuns hr)
  obtain ⟨findings, hdetect, _, hreported, _⟩ := asyncWaterfall_reports hr "a.ts"
  exact ⟨hr, hcut, findings, hdetect, (hreported _ hcut).mpr ⟨_, List.mem_cons_of_mem _ List.mem_cons_self, by decide⟩⟩

/-- Three independent statements of which the last two are behind a statement that uses something earlier are not
reported. -/
theorem asyncWaterfall_misses_triple :
    let content :=
      "const a = await one();\nconst b = await two();\nconst c = await three(a);\nconst d = await four();\n".toList
    ∃ run ∈ awaitRuns content, HasTriple run ∧ asyncWaterfall.detect "a.ts" content = .ok [] := by
  let a : AwaitStatement := ⟨1, 1, ["a".toList], " one();".toList⟩
  let b : AwaitStatement := ⟨2, 1, ["b".toList], " two();".toList⟩
  let c : AwaitStatement := ⟨3, 1, ["c".toList], " three(a);".toList⟩
  let d : AwaitStatement := ⟨4, 1, ["d".toList], " four();".toList⟩
  have hr : [a, b, c, d] ∈ awaitRuns (("const a = await one();\nconst b = await two();\n" ++
      "const c = await three(a);\nconst d = await four();\n").toList) := by
    decide +kernel
  have hbinds : BindsIdentifiers [b, c, d] := (bindsIdentifiers_of_mem_awaitRuns hr).tail
  have hcut : IsCut [b, c, d] [[b, c, d]] := isCut_independentStretches hbinds (List.cons_ne_nil b _)
  exact ⟨_, hr, ⟨b, c, d, (List.suffix_cons a _).isInfix, hcut.independent _ List.mem_cons_self⟩, by decide +kernel⟩

end Checkup
