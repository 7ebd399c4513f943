import Mathlib.Data.List.Nodup
import Checkup.Proofs.Await.LoopBody
import Checkup.Proofs.Location.Await
import Checkup.Proofs.Rule.Ownership
import Checkup.Proofs.Text.Occurrence

/-!
# Loops that are reported

The rule reports the loops with an `await` in their body that is in the body of no loop inside (`Awaits`). A loop is
known by the place of its head (`IsLoop.eq_of_lineCol_eq`), so it can be said how often it is reported
(`reportCount_detect`).

A body is taken without its first character. That makes a difference for bodies without braces that start with `await`,
and for these only (`awaits_iff`).
-/

namespace Checkup

open Pattern

variable {content : Text} {b b' : LoopBody} {path : String}

namespace LoopBody

/-- Whether an offset is in the body. -/
def Holds (b : LoopBody) (offset : Nat) : Prop := b.start ≤ offset ∧ offset < b.stop

/-- Whether an offset is in the body, behind its first character. -/
def HoldsBehindFirst (b : LoopBody) (offset : Nat) : Prop := b.start < offset ∧ offset < b.stop

/-- Whether the body lies in that of another loop. -/
def LiesIn (b outer : LoopBody) : Prop := outer.start < b.start ∧ b.stop ≤ outer.stop

instance (b outer : LoopBody) : Decidable (b.LiesIn outer) := inferInstanceAs (Decidable (_ ∧ _))

/-- Whether the finding is the one about the loop. -/
def Reports (content : Text) (path : String) (b : LoopBody) (f : Finding) : Prop :=
  f.location = ⟨path, (Text.lineCol content b.header).1, (Text.lineCol content b.header).2⟩ ∧
    f.message = "`await` inside a loop runs each iteration one after another"

instance : DecidablePred (Reports content path b) := fun _ => inferInstanceAs (Decidable (_ ∧ _))

end LoopBody

/-- Whether an `await` of the text is held by a loop and by no loop in its body. -/
def Awaits (holds : LoopBody → Nat → Prop) (content : Text) (b : LoopBody) : Prop :=
  ∃ offset, AwaitAt content offset ∧ holds b offset ∧
    ∀ inner, IsLoop content inner → inner.LiesIn b → ¬ holds inner offset

/-! ## What the rule tests -/

theorem awaitsDirectly_iff :
    awaitsDirectly (loopBodies content) ((awaitKeyword.findAll content).map fun m => m.start) b = true ↔
      Awaits LoopBody.HoldsBehindFirst content b := by
  simp only [awaitsDirectly, List.any_eq_true, mem_awaits_iff, Bool.and_eq_true, Bool.not_eq_true', List.any_eq_false,
    List.mem_filter, mem_loopBodies_iff, LoopBody.isWithin, LoopBody.contains, decide_eq_true_eq, and_imp, Awaits,
    LoopBody.HoldsBehindFirst, LoopBody.LiesIn]

/-- Where no body starts with `await` the first characters make no difference. -/
theorem awaits_iff (h : ∀ inner, IsLoop content inner → inner = b ∨ inner.LiesIn b → ¬ AwaitAt content inner.start)
    (hb : IsLoop content b) : Awaits LoopBody.HoldsBehindFirst content b ↔ Awaits LoopBody.Holds content b := by
  refine exists_congr fun offset => and_congr_right fun hoffset => ?_
  have holds_iff {inner : LoopBody} (hinner : IsLoop content inner) (hlies : inner = b ∨ inner.LiesIn b) :
      inner.HoldsBehindFirst offset ↔ inner.Holds offset := by
    have hne : inner.start ≠ offset := by
      rintro rfl
      exact h inner hinner hlies hoffset
    exact and_congr_left' ⟨Nat.le_of_lt, fun hle => Nat.lt_of_le_of_ne hle hne⟩
  refine and_congr (holds_iff hb (Or.inl rfl)) ?_
  exact forall_congr' fun inner => imp_congr_right fun hinner => imp_congr_right fun hlies =>
    not_congr (holds_iff hinner (Or.inr hlies))

/-! ## Places of loops -/

/-- The loops are listed in the order of their heads. -/
theorem loopBodies_increasing (content : Text) : (loopBodies content).Pairwise fun b b' => b.header < b'.header := by
  refine List.pairwise_filterMap.mpr ((findAll_increasing loopHeader content).imp fun hlt b hb b' hb' => ?_)
  rwa [LoopBody.header_of_ofHeader hb, LoopBody.header_of_ofHeader hb']

theorem IsLoop.header_eq (h : IsLoop content b) :
    ∃ before rest, content = before ++ rest ∧ b.header = Text.byteSize before := by
  obtain ⟨before, keyword, gap, condition, lead, rest, body, rfl, _, _, _, _, _, _, rfl⟩ := h
  exact ⟨before, _, List.append_assoc _ _ _, rfl⟩

/-- A loop is known by the place of its head. -/
theorem IsLoop.eq_of_lineCol_eq (hb : IsLoop content b) (hb' : IsLoop content b')
    (h : Text.lineCol content b.header = Text.lineCol content b'.header) : b = b' := by
  have hkeys : ((loopBodies content).map LoopBody.header).Nodup :=
    List.pairwise_map.mpr ((loopBodies_increasing content).imp Nat.ne_of_lt)
  refine List.inj_on_of_nodup_map hkeys (mem_loopBodies_iff.mpr hb) (mem_loopBodies_iff.mpr hb') ?_
  obtain ⟨before, rest, rfl, heq⟩ := hb.header_eq
  obtain ⟨before', rest', htext, heq'⟩ := hb'.header_eq
  rw [heq, heq', Text.lineCol_append, htext, Text.lineCol_append] at h
  rw [heq, heq', Text.eq_of_place_eq htext h]

/-! ## What the rule reports -/

/-- How many of the findings are about the loop. -/
def reportCount (content : Text) (path : String) (b : LoopBody) (findings : List Finding) : Nat :=
  findings.countP fun f => b.Reports content path f

theorem reports_iff (hb : IsLoop content b) (hb' : IsLoop content b') (help : String) :
    b.Reports content path (awaitInLoop.info.finding path
      (Spot.atOffset content b'.header "`await` inside a loop runs each iteration one after another" help)) ↔
      b' = b := by
  constructor
  · rintro ⟨hlocation, _⟩
    obtain ⟨_, hline, hcolumn⟩ := Location.mk.inj hlocation
    exact hb'.eq_of_lineCol_eq hb (Prod.ext hline hcolumn)
  · rintro rfl
    exact ⟨rfl, rfl⟩

/-- Among the loops that are picked a loop is reported once if it is one of them. -/
theorem countP_reports (hb : IsLoop content b) (path : String) (picks : LoopBody → Bool) (help : String) :
    (((loopBodies content).filter picks).map fun b' =>
      Spot.atOffset content b'.header "`await` inside a loop runs each iteration one after another" help).countP
        (fun spot => b.Reports content path (awaitInLoop.info.finding path spot)) = if picks b then 1 else 0 := by
  have hnodup : (loopBodies content).Nodup := (loopBodies_increasing content).imp fun hlt heq => by simp [heq] at hlt
  have hmem : b ∈ (loopBodies content).filter picks ↔ picks b = true := by
    rw [List.mem_filter, mem_loopBodies_iff, and_iff_right hb]
  rw [List.countP_map]
  calc ((loopBodies content).filter picks).countP _
      = ((loopBodies content).filter picks).count b := by
        refine List.countP_congr fun b' hb' => ?_
        have hloop := mem_loopBodies_iff.mp (List.mem_of_mem_filter hb')
        simp [reports_iff hb hloop help]
    _ = if picks b then 1 else 0 := by rw [(hnodup.filter picks).count]; simp only [hmem]

theorem not_awaits_of_not_has (h : content.has "await" = false) (holds : LoopBody → Nat → Prop) :
    ¬ Awaits holds content b := by
  rintro ⟨_, ⟨before, rest, rfl, _⟩, _⟩
  have hinfix : "await".toList <:+: before ++ ("await".toList ++ rest) := ⟨before, rest, by simp⟩
  rw [Text.has, Text.occurs_iff.mpr hinfix] at h
  cases h

/-- A loop is reported once if an `await` is held by it and by no loop inside, and else not at all. -/
theorem reportCount_detect (hb : IsLoop content b) (path : String) :
    ∃ findings, awaitInLoop.detect path content = .ok findings ∧ reportCount content path b findings =
      if awaitsDirectly (loopBodies content) ((awaitKeyword.findAll content).map fun m => m.start) b then 1 else 0 := by
  have hspots : awaitInLoop.ReportsSpots _ := rfl
  refine ⟨_, hspots.detect_eq path content, ?_⟩
  split
  · rw [reportCount, List.countP_map, Spot.sort, (List.mergeSort_perm _ _).countP_eq, List.countP_append]
    have hloops := countP_reports hb path
      (awaitsDirectly (loopBodies content) ((awaitKeyword.findAll content).map fun m => m.start))
      "Collect the promises and await them together with `Promise.all(items.map(...))`"
    -- a callback is reported with another message
    refine (congrArg₂ _ hloops (List.countP_eq_zero.mpr ?_)).trans (Nat.add_zero _)
    refine List.forall_mem_map.mpr fun m _ hreports => ?_
    obtain ⟨_, hmessage⟩ := of_decide_eq_true hreports
    simp [RuleInfo.finding, Spot.atOffset] at hmessage
  · rename_i hclues
    have hhas : content.has "await" = false := by
      simp only [Rule.hasClues, awaitInLoop, RuleInfo.rule, List.all_cons, List.all_nil, List.any_cons, List.any_nil,
        Bool.and_true, Bool.or_false, Bool.not_eq_true, Bool.or_eq_false_iff] at hclues
      exact hclues.1
    rw [if_neg (mt awaitsDirectly_iff.mp (not_awaits_of_not_has hhas _))]
    rfl

/-- **Awaits in loops.** The rule reports a loop once if an `await` is behind the first character of its body and of
no body inside, and else not at all. Where no such body starts with `await` these are the awaits in its body and in no
body inside. -/
theorem awaitInLoop_reports (hb : IsLoop content b) (path : String) :
    ∃ findings, awaitInLoop.detect path content = .ok findings ∧
      let reports := reportCount content path b findings
      reports ≤ 1 ∧ (reports = 1 ↔ Awaits LoopBody.HoldsBehindFirst content b) ∧
        ((∀ inner, IsLoop content inner → inner = b ∨ inner.LiesIn b → ¬ AwaitAt content inner.start) →
          (reports = 1 ↔ Awaits LoopBody.Holds content b)) := by
  obtain ⟨findings, hdetect, hcount⟩ := reportCount_detect hb path
  have hone : reportCount content path b findings = 1 ↔ Awaits LoopBody.HoldsBehindFirst content b := by
    rw [hcount, ← awaitsDirectly_iff]
    split <;> simp [*]
  refine ⟨findings, hdetect, ?_, hone, fun hfirst => hone.trans (awaits_iff hfirst hb)⟩
  rw [hcount]
  split <;> decide

/-- An `await` in a loop inside another one is reported for the inner one. -/
theorem awaitInLoop_reports_innermost :
    let content := "for (const a of xs) \x7b\n  for (const b of ys) \x7b\n    await go(a, b);\n  \x7d\n\x7d\n".toList
    let outer : LoopBody := ⟨0, 20, 70⟩
    let inner : LoopBody := ⟨24, 44, 68⟩
    IsLoop content outer ∧ IsLoop content inner ∧ inner.LiesIn outer ∧
      ∃ findings, awaitInLoop.detect "a.ts" content = .ok findings ∧
        reportCount content "a.ts" outer findings = 0 ∧ reportCount content "a.ts" inner findings = 1 := by
  intro content outer inner
  have hloops : loopBodies content = [outer, inner] := by decide +kernel
  have houter : IsLoop content outer := mem_loopBodies_iff.mp (hloops ▸ List.mem_cons_self)
  have hinner : IsLoop content inner := mem_loopBodies_iff.mp (hloops ▸ List.mem_cons_of_mem _ List.mem_cons_self)
  obtain ⟨findings, hdetect, hle, hone, _⟩ := awaitInLoop_reports houter "a.ts"
  obtain ⟨findings', hdetect', _, hone', _⟩ := awaitInLoop_reports hinner "a.ts"
  obtain rfl : findings = findings' := Except.ok.inj (hdetect.symm.trans hdetect')
  have hnone : reportCount content "a.ts" outer findings ≠ 1 :=
    mt (fun h => awaitsDirectly_iff.mpr (hone.mp h)) (by decide +kernel)
  exact ⟨houter, hinner, by decide, findings, hdetect, by omega, hone'.mpr (awaitsDirectly_iff.mp (by decide +kernel))⟩

/-- A body without braces that is an awaited call is not reported. -/
theorem awaitInLoop_misses_first :
    let content := "for (const item of items) await save(item);\n".toList
    ∃ b, IsLoop content b ∧ Awaits LoopBody.Holds content b ∧ awaitInLoop.detect "a.ts" content = .ok [] := by
  intro content
  have hloops : loopBodies content = [⟨0, 26, 42⟩] := by decide +kernel
  have hawait : AwaitAt content 26 := mem_awaits_iff.mp (by decide +kernel)
  refine ⟨⟨0, 26, 42⟩, mem_loopBodies_iff.mp (hloops ▸ List.mem_cons_self),
    ⟨26, hawait, ⟨Nat.le_refl 26, by decide⟩, ?_⟩, by decide +kernel⟩
  -- there is no other loop
  intro inner hinner hlies _
  rw [← mem_loopBodies_iff, hloops, List.mem_singleton] at hinner
  subst hinner
  exact Nat.lt_irrefl 26 hlies.1

end Checkup
