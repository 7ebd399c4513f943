import Checkup.Proofs.LineBreak.Loop
import Checkup.Proofs.LineBreak.Markup
import Checkup.Proofs.LineBreak.State
import Checkup.Rule.Sweep

/-!
# Sweeps and carriage returns

A carriage return before each line feed of each file changes nothing in a sweep with the rules of the catalog, if there
are no others and no guard of the tables holds a part of a line break (`Sweep.ofFiles_crlf`). For rules in general it
is enough that each ignores the returns (`Rule.IgnoresReturns`): suppression looks at lines only, and the order of the
files is the order of their paths.
-/

namespace Checkup

open Text (crlf)

variable {content : Text}

/-! ## Suppression -/

theorem isFileSuppressed_crlf (hc : '\r' ∉ content) : isFileSuppressed (crlf content) = isFileSuppressed content := by
  rw [isFileSuppressed, Text.lines_crlf hc, isFileSuppressed]

theorem keepUnsuppressed_crlf (hc : '\r' ∉ content) (fs : List Finding) :
    keepUnsuppressed (crlf content) fs = keepUnsuppressed content fs := by
  have hmarker : Text.Breakless ignoreMarker := by decide
  rw [keepUnsuppressed, Text.occurs_crlf hmarker, Text.lines_crlf hc, keepUnsuppressed]

/-! ## Files -/

/-- The paths stay, and so does their order. -/
theorem sortByPath_crlf (files : List SourceFile) :
    sortByPath (files.map SourceFile.crlf) = (sortByPath files).map SourceFile.crlf :=
  (List.map_mergeSort (f := SourceFile.crlf) fun _ _ _ _ => rfl).symm

theorem mem_sortByPath {files : List SourceFile} {f : SourceFile} : f ∈ sortByPath files ↔ f ∈ files :=
  List.mem_mergeSort

namespace Sweep

variable {rules : List Rule}

/-- Each rule says the same of a file, so that the sweep of the file is the same. -/
theorem ofFile_crlf (hrules : ∀ r ∈ rules, r.IgnoresReturns) {file : SourceFile} (hc : '\r' ∉ file.content) :
    ofFile rules file.crlf = ofFile rules file := by
  have houtcomes : (rules.map fun r => (r.info.id, r.detect file.path (crlf file.content))) =
      rules.map fun r => (r.info.id, r.detect file.path file.content) :=
    List.map_congr_left fun r hr => by rw [hrules r hr file.path file.content hc]
  simp only [ofFile, SourceFile.crlf, isFileSuppressed_crlf hc, keepUnsuppressed_crlf hc, houtcomes]

theorem ofFiles_crlf_of_ignoresReturns (hrules : ∀ r ∈ rules, r.IgnoresReturns) {files : List SourceFile}
    (hfiles : ∀ f ∈ files, '\r' ∉ f.content) : ofFiles rules (files.map SourceFile.crlf) = ofFiles rules files := by
  have hsweeps : ((sortByPath files).map SourceFile.crlf).map (ofFile rules) =
      (sortByPath files).map (ofFile rules) := by
    rw [List.map_map]
    exact List.map_congr_left fun f hf => ofFile_crlf hrules (hfiles f (mem_sortByPath.mp hf))
  simp only [ofFiles, sortByPath_crlf, hsweeps]

end Sweep

/-! ## All rules -/

/-- All rules ignore the returns. -/
theorem builtinRules_ignoreReturns {tables : RuleTables} (h : tables.BreaklessGuards) :
    ∀ r ∈ builtinRules tables, r.IgnoresReturns := by
  simp only [builtinRules, List.forall_mem_cons]
  exact ⟨asyncParallel_ignoresReturns, asyncWaterfall_ignoresReturns, awaitInLoop_ignoresReturns,
    deferAwait_ignoresReturns,
    heavyImport_ignoresReturns tables, barrelImport_ignoresReturns tables, lodashFull_ignoresReturns,
    unauthenticatedAction_ignoresReturns tables, secretInClient_ignoresReturns,
    serverImportInClient_ignoresReturns tables, inlineActionInClient_ignoresReturns,
    derivedState_ignoresReturns, functionalSetState_ignoresReturns, lazyStateInit_ignoresReturns,
    effectWithoutDependencies_ignoresReturns, inlineContextValue_ignoresReturns, indexKey_ignoresReturns,
    fetchInEffect_ignoresReturns,
    browserApi_ignoresReturns h, nondeterministic_ignoresReturns h, numericConditional_ignoresReturns,
    rawImage_ignoresReturns, rawAnchor_ignoresReturns, dangerousHtml_ignoresReturns,
    booleanProps_ignoresReturns tables, nestedComponent_ignoresReturns, tooManyProps_ignoresReturns,
    indexMaps_ignoresReturns, setLookups_ignoresReturns, structuredClone_ignoresReturns, noConsole_ignoresReturns,
    combineIterations_ignoresReturns,
    clientPage_ignoresReturns, metadataInClient_ignoresReturns, pagesRouter_ignoresReturns,
    redirectInTry_ignoresReturns, fun _ h => absurd h List.not_mem_nil⟩

/-- **Carriage returns before line feeds.** If no guard of the tables holds a part of a line break and no file has a
carriage return, a sweep with all rules finds the same, in the same order, with a carriage return before each line
feed. -/
theorem Sweep.ofFiles_crlf (tables : RuleTables) (files : List SourceFile)
    (hguards : ∀ guard ∈ tables.mountGuards, '\n' ∉ guard.toList ∧ '\r' ∉ guard.toList)
    (hfiles : ∀ f ∈ files, '\r' ∉ f.content) :
    ofFiles (builtinRules tables) (files.map SourceFile.crlf) = ofFiles (builtinRules tables) files :=
  ofFiles_crlf_of_ignoresReturns (builtinRules_ignoreReturns hguards) hfiles

/-- Two files, of which one has a loop that waits and a message for debugging on its third line. -/
theorem Sweep.ofFiles_crlf_pair :
    let code := "while (x)\n  y = await f()\nconsole.log(y)\n".toList
    let files : List SourceFile := [⟨"b.ts", code⟩, ⟨"a.ts", "let x\n".toList⟩]
    (∀ guard ∈ RuleTables.standard.mountGuards, '\n' ∉ guard.toList ∧ '\r' ∉ guard.toList) ∧
      (∀ f ∈ files, '\r' ∉ f.content) ∧
      (noConsole.detect "b.ts" (crlf code)).toOption.map (·.map fun f => (f.location.line, f.location.column)) =
        some [(3, 1)] ∧
      ofFiles (builtinRules .standard) (files.map SourceFile.crlf) = ofFiles (builtinRules .standard) files := by
  intro code files
  have hguards : ∀ guard ∈ RuleTables.standard.mountGuards, '\n' ∉ guard.toList ∧ '\r' ∉ guard.toList := by decide
  have hfiles : ∀ f ∈ files, '\r' ∉ f.content := by decide
  exact ⟨hguards, hfiles, rfl, ofFiles_crlf .standard files hguards hfiles⟩

end Checkup
