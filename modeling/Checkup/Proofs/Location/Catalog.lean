import Mathlib.Algebra.Group.Nat.Defs
import Checkup.Proofs.Location.Await
import Checkup.Proofs.Location.Component

/-!
# Where findings point

Every rule of the catalog looks at every file without failing, and each of its findings bears the name, severity and
reference of the rule and points to a character in a line of the file (`builtinRules_detect_inside`). If the file is
shorter than 2³² bytes, lines and columns fit into 32 bits.
-/

namespace Checkup

/-- Whether a location is the place of a character in a line of the text, with numbers of 32 bits. -/
structure Location.Inside (content : Text) (l : Location) : Prop where
  one_le_line : 1 ≤ l.line
  line_le : l.line ≤ (Text.lines content).length
  one_le_column : 1 ≤ l.column
  column_le : ∃ line, (Text.lines content)[l.line - 1]? = some line ∧ l.column ≤ Text.byteSize line
  line_fits : l.line < 2 ^ 32
  column_fits : l.column < 2 ^ 32

/-! ## The size of lines -/

theorem Text.byteSize_reverse (t : Text) : byteSize t.reverse = byteSize t := by
  induction t with
  | nil => rfl
  | cons c t ih => simp [byteSize_cons, ih, Nat.add_comm]

theorem Text.byteSize_closeLine_le (line : Text) : byteSize (closeLine line) ≤ byteSize line := by
  unfold closeLine
  split
  · rw [byteSize_reverse, byteSize_cons]
    exact Nat.le_add_left _ _
  · exact Nat.le_of_eq (byteSize_reverse line)

/-- Every line takes a byte at least, in it or in its break. -/
theorem Text.length_linesFrom_le (acc t : Text) : (linesFrom acc t).length ≤ byteSize acc + byteSize t := by
  induction t generalizing acc with
  | nil =>
    rw [linesFrom]
    split
    · exact Nat.zero_le _
    · rename_i hne
      exact Nat.le_add_right_of_le (byteSize_pos fun e => hne (by rw [e]; rfl))
  | cons c t ih =>
    have hc := c.utf8Size_pos
    rw [linesFrom, byteSize_cons]
    split
    · have := ih []
      simp only [List.length_cons, byteSize_nil] at this ⊢
      omega
    · have := ih (c :: acc)
      rw [byteSize_cons] at this
      omega

/-- So the bytes of one line and one byte for each other line are no more than the text has. -/
theorem Text.length_linesFrom_add_le {l : Text} (acc t : Text) (h : l ∈ linesFrom acc t) :
    (linesFrom acc t).length + byteSize l ≤ byteSize acc + byteSize t + 1 := by
  induction t generalizing acc with
  | nil =>
    rw [linesFrom] at h ⊢
    split at h
    · cases h
    · rename_i hne
      rw [List.mem_singleton.mp h, if_neg hne, byteSize_reverse]
      simp [Nat.add_comm]
  | cons c t ih =>
    have hc := c.utf8Size_pos
    rw [linesFrom] at h ⊢
    rw [byteSize_cons]
    split
    · rename_i hn
      rw [if_pos hn] at h
      rw [List.length_cons]
      rcases List.mem_cons.mp h with rfl | h
      · have := length_linesFrom_le [] t
        have := byteSize_closeLine_le acc
        rw [byteSize_nil] at *
        omega
      · have := ih [] h
        rw [byteSize_nil] at this
        omega
    · rename_i hn
      rw [if_neg hn] at h
      have := ih (c :: acc) h
      rw [byteSize_cons] at this
      omega

variable {content : Text}

/-- A spot on a line of a file points into the file. -/
theorem Spot.On.inside {s : Spot} (h : s.On (numberedLines content)) (hsize : Text.byteSize content < 2 ^ 32)
    (path : String) : Location.Inside content ⟨path, s.line, s.column⟩ := by
  obtain ⟨l, hl, hone, hle⟩ := h
  obtain ⟨hn, hl⟩ := mem_numberedLines.mp hl
  have hlt := (List.getElem?_eq_some_iff.mp hl).1
  have hsum := Text.length_linesFrom_add_le [] content (List.mem_of_getElem? hl)
  rw [Text.byteSize_nil, ← Text.lines] at hsum
  exact ⟨hn, by dsimp only; omega, hone, ⟨l, hl, hle⟩, by dsimp only; omega, by dsimp only; omega⟩

/-! ## All rules -/

/-- All spots of all rules are on lines of the file. -/
theorem builtinRules_located (tables : RuleTables) : ∀ r ∈ builtinRules tables, r.Located := by
  simp only [builtinRules, List.forall_mem_cons]
  exact ⟨asyncParallel_located, asyncWaterfall_located, awaitInLoop_located, deferAwait_located,
    heavyImport_located tables, barrelImport_located tables, lodashFull_located,
    (unauthenticatedActionLines tables).located, secretInClientLines.located, serverImportInClient_located tables,
    inlineActionInClientLines.located,
    derivedState_located, functionalSetState_located, lazyStateInit_located, effectWithoutDependencies_located,
    inlineContextValue_located, indexKey_located, fetchInEffect_located,
    (browserApiLines tables).located, (nondeterministicLines tables).located, numericConditional_located,
    rawImageLines.located, rawAnchor_located, dangerousHtml_located,
    booleanProps_located tables, nestedComponentLines.located, tooManyProps_located,
    indexMapsLines.located, setLookupsLines.located, structuredClone_located, noConsoleLines.located,
    combineIterationsLines.located,
    clientPage_located, metadataInClient_located, pagesRouter_located, redirectInTry_located,
    fun _ h => absurd h List.not_mem_nil⟩

/-- **Where findings point.** On every file that is shorter than 2³² bytes each rule gives a result, and each of its
findings bears the name, severity and reference of the rule and points to a character in a line of the file. -/
theorem builtinRules_detect_inside (tables : RuleTables) (path : String) (content : Text)
    (hsize : Text.byteSize content < 2 ^ 32) :
    ∀ r ∈ builtinRules tables, ∃ fs, r.detect path content = .ok fs ∧
      ∀ f ∈ fs, r.info.Bears path f ∧ f.location.Inside content := by
  intro r hr
  obtain ⟨spots, hspots, hon⟩ := builtinRules_located tables r hr
  refine ⟨_, hspots.detect_eq path content, fun f hf => ⟨hspots.bears (hspots.detect_eq path content) hf, ?_⟩⟩
  split at hf
  · obtain ⟨s, hs, rfl⟩ := List.mem_map.mp hf
    exact (hon path content s hs).inside hsize path
  · cases hf

/-- A file with a message for debugging on its second line. -/
theorem noConsole_detect_inside :
    let content := "let x\r\n  console.log(x)".toList
    Text.byteSize content < 2 ^ 32 ∧ noConsole ∈ builtinRules .standard ∧
      (noConsole.detect "a.ts" content).toOption.map (·.map fun f => (f.location.line, f.location.column)) =
        some [(2, 3)] ∧
      ∃ fs, noConsole.detect "a.ts" content = .ok fs ∧
        ∀ f ∈ fs, noConsole.info.Bears "a.ts" f ∧ f.location.Inside content := by
  have hsize : Text.byteSize "let x\r\n  console.log(x)".toList < 2 ^ 32 := by decide
  have hmem : noConsole ∈ builtinRules .standard := by simp [builtinRules]
  exact ⟨hsize, hmem, by rfl, builtinRules_detect_inside .standard "a.ts" _ hsize noConsole hmem⟩

end Checkup
