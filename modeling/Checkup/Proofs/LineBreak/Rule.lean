import Checkup.Proofs.LineBreak.Search
import Checkup.Proofs.Rule.Ownership
import Checkup.Rule.Catalog

/-!
# Rules that see lines only

`Rule.IgnoresReturns` is the property of a rule that carriage returns before the line feeds of a file change nothing in
what it finds, if there are none otherwise. A rule whose clues hold no part of a line break has it if its spots do not
change (`Rule.ignoresReturns_of`). The rules of this module look at the lines of a file, which do not change.
-/

namespace Checkup

open Text (crlf)

variable {content : Text}

/-- Whether the rule finds the same with and without carriage returns before line feeds. -/
def Rule.IgnoresReturns (r : Rule) : Prop :=
  ∀ path content, '\r' ∉ content → r.detect path (crlf content) = r.detect path content

/-- Whether no clue of the rule holds a part of a line break. -/
def Rule.breaklessClues (r : Rule) : Bool := r.clues.all fun words => words.all fun w =>
    decide (Text.Breakless w.toList)

theorem Rule.hasClues_crlf {r : Rule} (hr : r.breaklessClues = true) (content : Text) :
    r.hasClues (crlf content) = r.hasClues content := by
  simp only [Rule.breaklessClues, List.all_eq_true, decide_eq_true_eq] at hr
  rw [Bool.eq_iff_iff]
  simp only [Rule.hasClues, List.all_eq_true, List.any_eq_true]
  refine forall₂_congr fun words hwords => exists_congr fun w => and_congr_right fun hw => ?_
  rw [Text.has_crlf (hr words hwords w hw)]

theorem Rule.ignoresReturns_of {r : Rule} {spots : String → Text → List Spot} (h : r.ReportsSpots spots)
    (hclues : r.breaklessClues = true)
    (hspots : ∀ path content, '\r' ∉ content → spots path (crlf content) = spots path content) : r.IgnoresReturns := by
  intro path content hc
  rw [h.detect_eq, h.detect_eq, Rule.hasClues_crlf hclues, hspots path content hc]

/-- A spot at a place does not change. -/
theorem Spot.atOffset_crlf {n n' : Nat} (h : Text.Moves content n n') (message help : String) :
    Spot.atOffset (crlf content) n' message help = Spot.atOffset content n message help := by
  rw [Spot.atOffset, h.lineCol_eq]
  rfl

/-! ## Lines -/

theorem numberedLines_crlf (h : '\r' ∉ content) : numberedLines (crlf content) = numberedLines content := by
  rw [numberedLines, Text.lines_crlf h, numberedLines]

theorem codeLines_crlf (h : '\r' ∉ content) : codeLines (crlf content) = codeLines content := by
  rw [codeLines, numberedLines_crlf h, codeLines]

theorem findDirective_crlf (h : '\r' ∉ content) : findDirective (crlf content) = findDirective content := by
  rw [findDirective, numberedLines_crlf h, findDirective]

theorem directive_crlf (h : '\r' ∉ content) : directive (crlf content) = directive content := by
  rw [directive, findDirective_crlf h, directive]

theorem isClientFile_crlf (h : '\r' ∉ content) : isClientFile (crlf content) = isClientFile content := by
  rw [isClientFile, directive_crlf h, isClientFile]

theorem markupLines_crlf (h : '\r' ∉ content) : markupLines (crlf content) = markupLines content := by
  rw [markupLines, numberedLines_crlf h, markupLines]

theorem awaitRuns_crlf (h : '\r' ∉ content) : awaitRuns (crlf content) = awaitRuns content := by
  rw [awaitRuns, numberedLines_crlf h, awaitRuns]

/-- Whether no guard of the tables holds a part of a line break. -/
def RuleTables.BreaklessGuards (tables : RuleTables) : Prop := ∀ guard ∈ tables.mountGuards, Text.Breakless guard.toList

theorem RuleTables.hasMountGuard_crlf {tables : RuleTables} (h : tables.BreaklessGuards) (content : Text) :
    tables.hasMountGuard (crlf content) = tables.hasMountGuard content := by
  rw [Bool.eq_iff_iff]
  simp only [RuleTables.hasMountGuard, List.any_eq_true]
  refine exists_congr fun guard => and_congr_right fun hguard => ?_
  rw [Text.occurs_crlf (h guard hguard), Text.mentions_crlf (h guard hguard)]

/-! ## Rules -/

theorem asyncParallel_ignoresReturns : asyncParallel.IgnoresReturns := by
  refine Rule.ignoresReturns_of rfl (by decide) fun path content hc => ?_
  simp only [awaitRuns_crlf hc]

theorem asyncWaterfall_ignoresReturns : asyncWaterfall.IgnoresReturns := by
  refine Rule.ignoresReturns_of rfl (by decide) fun path content hc => ?_
  simp only [awaitRuns_crlf hc]

theorem deferAwait_ignoresReturns : deferAwait.IgnoresReturns := by
  refine Rule.ignoresReturns_of rfl (by decide) fun path content hc => ?_
  simp only [numberedLines_crlf hc]

theorem unauthenticatedAction_ignoresReturns (tables : RuleTables) :
    (unauthenticatedAction tables).IgnoresReturns := by
  refine Rule.ignoresReturns_of rfl rfl fun path content hc => ?_
  simp only [directive_crlf hc, numberedLines_crlf hc]

theorem secretInClient_ignoresReturns : secretInClient.IgnoresReturns := by
  refine Rule.ignoresReturns_of rfl (by decide) fun path content hc => ?_
  simp only [isClientFile_crlf hc, codeLines_crlf hc]

theorem inlineActionInClient_ignoresReturns : inlineActionInClient.IgnoresReturns := by
  refine Rule.ignoresReturns_of rfl (by decide) fun path content hc => ?_
  simp only [isClientFile_crlf hc, numberedLines_crlf hc]

theorem browserApi_ignoresReturns {tables : RuleTables} (h : tables.BreaklessGuards) :
    (browserApi tables).IgnoresReturns := by
  refine Rule.ignoresReturns_of rfl rfl fun path content hc => ?_
  simp only [RuleTables.hasMountGuard_crlf h, markupLines_crlf hc]

theorem nondeterministic_ignoresReturns {tables : RuleTables} (h : tables.BreaklessGuards) :
    (nondeterministic tables).IgnoresReturns := by
  refine Rule.ignoresReturns_of rfl rfl fun path content hc => ?_
  have hmark := Text.has_crlf (s := "suppressHydrationWarning") (by decide) content
  simp only [RuleTables.hasMountGuard_crlf h, markupLines_crlf hc, hmark]

theorem rawImage_ignoresReturns : rawImage.IgnoresReturns := by
  refine Rule.ignoresReturns_of rfl (by decide) fun path content hc => ?_
  simp only [codeLines_crlf hc]

theorem nestedComponent_ignoresReturns : nestedComponent.IgnoresReturns := by
  refine Rule.ignoresReturns_of rfl rfl fun path content hc => ?_
  simp only [numberedLines_crlf hc]

theorem indexMaps_ignoresReturns : indexMaps.IgnoresReturns := by
  refine Rule.ignoresReturns_of rfl rfl fun path content hc => ?_
  simp only [codeLines_crlf hc]

theorem setLookups_ignoresReturns : setLookups.IgnoresReturns := by
  refine Rule.ignoresReturns_of rfl (by decide) fun path content hc => ?_
  simp only [codeLines_crlf hc]

theorem noConsole_ignoresReturns : noConsole.IgnoresReturns := by
  refine Rule.ignoresReturns_of rfl (by decide) fun path content hc => ?_
  simp only [codeLines_crlf hc]

theorem combineIterations_ignoresReturns : combineIterations.IgnoresReturns := by
  refine Rule.ignoresReturns_of rfl (by decide) fun path content hc => ?_
  simp only [codeLines_crlf hc]

theorem clientPage_ignoresReturns : clientPage.IgnoresReturns := by
  refine Rule.ignoresReturns_of rfl rfl fun path content hc => ?_
  simp only [findDirective_crlf hc]

end Checkup
