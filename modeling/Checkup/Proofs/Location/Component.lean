import Checkup.Proofs.Location.Boundary
import Checkup.Rule.Composition
import Checkup.Rule.Iteration
import Checkup.Rule.Rendering
import Checkup.Rule.Rerender

/-!
# Spots about components

State, effects, markup, properties, and the code inside of them. Offsets in the file are starts of matches, but for
types of properties, whose spot is the first character of the match that is no blank.
-/

namespace Checkup

open Pattern

variable {content : Text} {message help : String} {ls : List (Nat × Text)} {s : Spot}

/-- A match of a listed pattern starts on a line. -/
theorem findAll_on {p : Pattern} {m : Match} (hm : m ∈ p.findAll content) (hp : p.opens ['\n', '\r'] = true) :
    (Spot.atOffset content m.start message help).On (numberedLines content) := by
  obtain ⟨pre, w, post, g, hof⟩ := findAll_of hm
  exact hof.on_start hp

/-! ## State and effects -/

theorem effectCalls_on {e : EffectCall} (he : e ∈ effectCalls content) :
    (Spot.atOffset content e.start message help).On (numberedLines content) := by
  obtain ⟨m, hm, he⟩ := List.mem_filterMap.mp he
  obtain ⟨close, _, rfl⟩ := Option.map_eq_some_iff.mp he
  exact findAll_on hm (by decide)

theorem derivedState_located : derivedState.Located := by
  refine ⟨_, rfl, fun path content s hs => ?_⟩
  dsimp only at hs
  split at hs
  · cases hs
  · simp only [List.mem_filterMap, Option.bind_eq_bind, Option.bind_eq_some_iff, Option.pure_def,
      Option.some.injEq] at hs
    obtain ⟨e, he, body, _, called, _, rfl⟩ := hs
    exact effectCalls_on he

theorem effectWithoutDependencies_located : effectWithoutDependencies.Located := by
  refine ⟨_, rfl, fun path content s hs => ?_⟩
  simp only [List.mem_map, List.mem_filter] at hs
  obtain ⟨e, ⟨he, _⟩, rfl⟩ := hs
  exact effectCalls_on he

theorem fetchInEffect_located : fetchInEffect.Located := by
  refine ⟨_, rfl, fun path content s hs => ?_⟩
  split at hs
  · cases hs
  · simp only [List.mem_filterMap, Option.bind_eq_bind, Option.bind_eq_some_iff] at hs
    obtain ⟨e, he, body, _, hs⟩ := hs
    split at hs
    · cases hs
      exact effectCalls_on he
    · cases hs

theorem mayOpen_literal {t : Text} {cs : List Char} (h : ∀ x ∈ t, x ∉ cs) : (literal t).mayOpen cs = true := by
  have head (x : Char) (hx : x ∉ cs) : shuns cs (· == x) = true := by
    simp only [shuns, List.all_eq_true, Bool.not_eq_true', beq_eq_false_iff_ne]
    rintro c hc rfl
    exact hx hc
  induction t using literal.induct with
  | case1 => rfl
  | case2 c => exact head c (h c (by simp))
  | case3 c t hne ih =>
    rw [literal]
    · exact Bool.and_eq_true_iff.mpr ⟨head c (h c (by simp)), ih fun x hx => h x (List.mem_cons_of_mem _ hx)⟩
    · exact hne

/-- The names of a state variable and its setter are not empty and hold no part of a line break. -/
theorem statePairs_names {value setter : Text} (h : (value, setter) ∈ statePairs content) :
    (value ≠ [] ∧ Text.Breakless value) ∧ setter ≠ [] ∧ Text.Breakless setter := by
  simp only [statePairs, List.mem_filterMap, Option.bind_eq_bind, Option.bind_eq_some_iff, Option.pure_def,
    Option.some.injEq, Prod.mk.injEq] at h
  obtain ⟨m, hm, c₁, hc₁, c₂, hc₂, rfl, rfl⟩ := h
  obtain ⟨pre, w, post, g, hof⟩ := findAll_of hm
  have hvalue := hof.group_text (s := ['\n', '\r']) hc₁ (by decide)
  have hsetter := hof.group_text (s := ['\n', '\r']) hc₂ (by decide)
  exact ⟨⟨hvalue.1, fun hx => hvalue.2 _ hx (by simp), fun hx => hvalue.2 _ hx (by simp)⟩,
    hsetter.1, fun hx => hsetter.2 _ hx (by simp), fun hx => hsetter.2 _ hx (by simp)⟩

theorem functionalSetState_located : functionalSetState.Located := by
  refine ⟨_, rfl, fun path content s hs => ?_⟩
  simp only [Spot.mem_sort, List.mem_flatMap, List.mem_map, Prod.exists] at hs
  obtain ⟨value, setter, h, m, hm, rfl⟩ := hs
  refine findAll_on hm ?_
  obtain ⟨_, _, hbreakless⟩ := statePairs_names h
  have hsetter := mayOpen_literal hbreakless.not_mem
  simp only [capturedUpdate, seqAll, opens, mayOpen, Bool.or_eq_true, Bool.and_eq_true]
  exact Or.inr ⟨trivial, Or.inr ⟨hsetter, Or.inl rfl⟩⟩

theorem lazyStateInit_located : lazyStateInit.Located := by
  refine ⟨_, rfl, fun path content s hs => ?_⟩
  simp only [List.mem_filterMap, Option.bind_eq_bind, Option.bind_eq_some_iff] at hs
  obtain ⟨m, hm, callee, _, hs⟩ := hs
  split at hs
  · cases hs
  · cases hs
    exact findAll_on hm (by decide)

theorem inlineContextValue_located : inlineContextValue.Located := by
  refine ⟨_, rfl, fun path content s hs => ?_⟩
  simp only [List.mem_filterMap, Option.bind_eq_bind, Option.bind_eq_some_iff, Option.pure_def,
    Option.some.injEq] at hs
  obtain ⟨m, hm, provider, _, rfl⟩ := hs
  exact findAll_on hm (by decide)

theorem indexKey_located : indexKey.Located := by
  refine ⟨_, rfl, fun path content s hs => ?_⟩
  obtain ⟨m, hm, rfl⟩ := List.mem_map.mp hs
  exact findAll_on hm (by decide)

/-! ## Markup -/

/-- Lines of returned markup are lines of the file. -/
theorem markupLines_sub : ∀ x ∈ markupLines content, x ∈ numberedLines content := by
  intro x hx
  obtain ⟨⟨y, b⟩, hy, rfl⟩ := List.mem_map.mp (List.mem_filter.mp hx).1
  exact (List.of_mem_zip (List.mem_filter.mp hy).1).1

/-- Objects of the browser whose members are read. -/
def browserApiLines (tables : RuleTables) : LineRule where
  rule := browserApi tables
  tokens line := ((memberAccess.findAll line).filterMap (·.group? 1)).filter fun c =>
    tables.browserGlobals.contains (String.ofList c.text)
  partOf line c hc := by
    obtain ⟨m, hm, hc⟩ := List.mem_filterMap.mp (List.mem_filter.mp hc).1
    obtain ⟨pre, w, post, g, hof⟩ := findAll_of hm
    exact hof.group_partOf hc (by decide)
  flags := by
    refine ⟨_, rfl, fun path content s hs => ?_⟩
    split at hs
    · cases hs
    · simp only [List.mem_flatMap, List.mem_filterMap, Option.bind_eq_bind, Option.bind_eq_some_iff, Prod.exists] at hs
      obtain ⟨n, line, hline, m, hm, object, hobject, hs⟩ := hs
      split at hs
      · rename_i hglobal
        cases hs
        refine Spot.flags_inLine (markupLines_sub _ hline) ?_
        exact List.mem_filter.mpr ⟨List.mem_filterMap.mpr ⟨m, hm, hobject⟩, hglobal⟩
      · cases hs

/-- Expressions with another value each time. -/
def nondeterministicLines (tables : RuleTables) : LineRule where
  rule := nondeterministic tables
  tokens := changingValue.allTokens
  partOf := allTokens_partOf (by decide)
  flags := by
    refine ⟨_, rfl, fun path content s hs => ?_⟩
    split at hs
    · cases hs
    · exact flags_allTokens markupLines_sub hs

theorem numericConditional_located : numericConditional.Located := by
  refine ⟨_, rfl, fun path content s hs => ?_⟩
  simp only [List.mem_filterMap, Option.bind_eq_bind, Option.bind_eq_some_iff] at hs
  obtain ⟨m, hm, operand, _, hs⟩ := hs
  split at hs
  · cases hs
    exact findAll_on hm (by decide)
  · cases hs

/-- Starts of image elements. -/
def rawImageLines : LineRule where
  rule := rawImage
  tokens := imageStart.allTokens
  partOf := allTokens_partOf (by decide)
  flags := by
    refine ⟨_, rfl, fun path content s hs => ?_⟩
    split at hs
    · cases hs
    · exact flags_allTokens codeLines_sub hs

theorem rawAnchor_located : rawAnchor.Located := by
  refine ⟨_, rfl, fun path content s hs => ?_⟩
  obtain ⟨m, hm, rfl⟩ := List.mem_map.mp hs
  exact findAll_on hm (by decide)

theorem dangerousHtml_located : dangerousHtml.Located := by
  refine ⟨_, rfl, fun path content s hs => ?_⟩
  split at hs
  · cases hs
  · obtain ⟨k, hk, rfl⟩ := List.mem_map.mp hs
    exact indexes_on hk rfl (by decide) (by decide)

/-! ## Properties and declarations -/

theorem propsBlocks_on {b : PropsBlock} (hb : b ∈ propsBlocks content) :
    (Spot.atOffset content b.start message help).On (numberedLines content) := by
  simp only [propsBlocks, List.mem_filterMap, Option.bind_eq_bind, Option.bind_eq_some_iff, Option.pure_def,
    Option.some.injEq] at hb
  obtain ⟨m, hm, name, _, close, _, rfl⟩ := hb
  obtain ⟨pre, w, post, g, hof⟩ := findAll_of hm
  exact hof.on_inkStart (by decide)

theorem booleanProps_located (tables : RuleTables) : (booleanProps tables).Located := by
  refine ⟨_, rfl, fun path content s hs => ?_⟩
  obtain ⟨b, hb, hs⟩ := List.mem_filterMap.mp hs
  dsimp only at hs
  split at hs
  · cases hs
  · cases hs
    exact propsBlocks_on hb

theorem tooManyProps_located : tooManyProps.Located := by
  refine ⟨_, rfl, fun path content s hs => ?_⟩
  simp only [List.mem_map, List.mem_filter] at hs
  obtain ⟨b, ⟨hb, _⟩, rfl⟩ := hs
  exact propsBlocks_on hb

/-- The name of the component that a line declares. -/
def declaredName? (line : Text) : Option Capture :=
  (componentDeclaration.find line).bind fun m => (m.group? 1).or (m.group? 2)

theorem nestedSpots_flags {scope : BraceScope Text} (hs : s ∈ nestedSpots scope ls) :
    s.Flags (fun line => (declaredName? line).toList) ls := by
  induction ls generalizing scope with
  | nil => cases hs
  | cons x ls ih =>
    obtain ⟨n, line⟩ := x
    have later {scope : BraceScope Text} (hs : s ∈ nestedSpots scope ls) :
        s.Flags (fun line => (declaredName? line).toList) ((n, line) :: ls) :=
      (ih hs).mono fun x hx => List.mem_cons_of_mem _ hx
    rw [nestedSpots] at hs
    split at hs
    · exact later hs
    · rename_i m hm
      split at hs
      · exact later hs
      · rename_i name hname
        dsimp only at hs
        split at hs
        · exact later hs
        · rcases List.mem_cons.mp hs with rfl | hs
          · refine Spot.flags_inLine List.mem_cons_self ?_
            rw [declaredName?, hm, Option.bind_some, hname]
            exact List.mem_singleton_self name
          · exact later hs

/-- The names of declared components. -/
def nestedComponentLines : LineRule where
  rule := nestedComponent
  tokens line := (declaredName? line).toList
  partOf line c hc := by
    obtain ⟨m, hm, hc⟩ := Option.bind_eq_some_iff.mp (Option.mem_toList.mp hc)
    obtain ⟨pre, w, post, g, hof⟩ := find_of hm
    exact hof.or_partOf hc (by decide) (by decide)
  flags := ⟨_, rfl, fun _ _ _ hs => nestedSpots_flags hs⟩

/-! ## Code -/

/-- The first call on a line that iterates. -/
def indexMapsLines : LineRule where
  rule := indexMaps
  tokens := iterateCall.firstToken
  partOf := firstToken_partOf (by decide)
  flags := by
    refine ⟨_, rfl, fun path content s hs => ?_⟩
    simp only [List.mem_filterMap, Option.bind_eq_bind, Option.bind_eq_some_iff, Option.pure_def, Option.some.injEq,
      Prod.exists] at hs
    obtain ⟨n, line, hline, m, hm, _, _, _, _, rfl⟩ := hs
    exact Spot.flags_inLine (codeLines_sub _ hline) (mem_firstToken hm)

/-- The first call of `filter` on a line. -/
def setLookupsLines : LineRule where
  rule := setLookups
  tokens := filterStart.firstToken
  partOf := firstToken_partOf (by decide)
  flags := by
    refine ⟨_, rfl, fun path content s hs => ?_⟩
    simp only [List.mem_filterMap, Option.bind_eq_bind, Option.bind_eq_some_iff, Option.pure_def, Option.some.injEq,
      Prod.exists] at hs
    obtain ⟨n, line, hline, m, hm, _, _, _, _, rfl⟩ := hs
    exact Spot.flags_inLine (codeLines_sub _ hline) (mem_firstToken hm)

theorem structuredClone_located : structuredClone.Located := by
  refine ⟨_, rfl, fun path content s hs => ?_⟩
  obtain ⟨m, hm, rfl⟩ := List.mem_map.mp hs
  exact findAll_on hm (by decide)

/-- Messages for debugging. -/
def noConsoleLines : LineRule where
  rule := noConsole
  tokens := consoleCall.allTokens
  partOf := allTokens_partOf (by decide)
  flags := by
    refine ⟨_, rfl, fun path content s hs => ?_⟩
    split at hs
    · cases hs
    · exact flags_allTokens codeLines_sub hs

/-- The first call of `filter` on a line whose result is mapped. -/
def combineIterationsLines : LineRule where
  rule := combineIterations
  tokens := filterThenMap.firstToken
  partOf := firstToken_partOf (by decide)
  flags := by
    refine ⟨_, rfl, fun path content s hs => ?_⟩
    simp only [List.mem_filterMap, Option.bind_eq_bind, Option.bind_eq_some_iff, Option.pure_def, Option.some.injEq,
      Prod.exists] at hs
    obtain ⟨n, line, hline, m, hm, rfl⟩ := hs
    exact Spot.flags_inLine (codeLines_sub _ hline) (mem_firstToken hm)

end Checkup
