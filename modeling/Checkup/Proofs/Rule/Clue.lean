import Checkup.Proofs.Await.Run
import Checkup.Proofs.Location.Boundary
import Checkup.Proofs.Pattern.Demand
import Checkup.Proofs.Rule.Navigation
import Checkup.Proofs.Text.Piece
import Checkup.Rule.Catalog

/-!
# What the clues of a rule are for

A rule passes over files without its clues. That is a shortcut if it would report nothing in such files anyway.

* `Rule.Needs`: a look at a file without the words finds nothing. Where the look is a search for a pattern, the pattern
  demands the words.
* `builtinRules_needs`: all rules need the words of all of their clues, but the two with the clue `useEffect`. They need
  either name of an effect.
* `builtinRules_detect_eq_inspect`: so the clues make no difference where that one does not.
-/

namespace Checkup

open Pattern

variable {content line : Text} {word : String} {words : List String} {x : Nat × Text}

/-! ## Words that a rule needs -/

/-- Whether the rule, without a look at its clues, reports nothing in files that have none of the words. -/
def Rule.Needs (r : Rule) (words : List String) : Prop :=
  ∀ path content, (∀ word ∈ words, content.has word = false) → r.inspect path content = .ok []

section Spots

variable {info : RuleInfo} {clues : List (List String)} {spots : String → Text → List Spot}

/-- A rule needs the words if there is one of them where there is a spot. -/
theorem RuleInfo.needs (h : ∀ path content, ∀ s ∈ spots path content, ∃ word ∈ words, content.has word = true) :
    (info.rule clues spots).Needs words := by
  intro path content hnone
  have hnil : spots path content = [] := by
    refine List.eq_nil_iff_forall_not_mem.mpr fun s hs => ?_
    obtain ⟨word, hword, hhas⟩ := h path content s hs
    rw [hnone word hword] at hhas
    cases hhas
  show Except.ok ((spots path content).map (info.finding path)) = .ok []
  rw [hnil, List.map_nil]

theorem RuleInfo.needs_word (h : ∀ path content, ∀ s ∈ spots path content, content.has word = true) :
    (info.rule clues spots).Needs [word] :=
  needs fun path content s hs => ⟨word, List.mem_singleton_self word, h path content s hs⟩

/-- A rule needs the word that a pattern demands if the pattern matches where there is a spot. -/
theorem RuleInfo.needs_match {p : Pattern} (hp : p.Demands word)
    (h : ∀ path content, ∀ s ∈ spots path content, ∃ m, m ∈ p.findAll content) : (info.rule clues spots).Needs [word] :=
  needs_word fun path content s hs => by
    obtain ⟨m, hm⟩ := h path content s hs
    exact hp.has_of_findAll hm

end Spots

/-- A word on a line is a word of the file. -/
theorem has_of_numberedLines (hx : x ∈ numberedLines content) (h : x.2.has word = true) : content.has word = true :=
  Text.has_of_infix h (Text.infix_of_mem_lines (List.mem_of_getElem? (mem_numberedLines.mp hx).2))

theorem has_of_codeLines (hx : x ∈ codeLines content) (h : x.2.has word = true) : content.has word = true :=
  has_of_numberedLines (codeLines_sub x hx) h

/-! ## Awaits -/

theorem has_of_awaitRuns {run : List AwaitStatement} (hr : run ∈ awaitRuns content) : content.has "await" = true := by
  by_contra h
  rw [awaitRuns_eq_nil (Bool.eq_false_iff.mpr h)] at hr
  cases hr

/-- A rule about each of the runs needs an await. -/
theorem RuleInfo.needs_runs {info : RuleInfo} {clues : List (List String)} {spots : List AwaitStatement → List Spot} :
    (info.rule clues fun _ content => (awaitRuns content).flatMap spots).Needs ["await"] :=
  needs_word fun path content s hs => by
    obtain ⟨run, hr, _⟩ := List.mem_flatMap.mp hs
    exact has_of_awaitRuns hr

theorem asyncParallel_needs : asyncParallel.Needs ["await"] := RuleInfo.needs_runs

theorem asyncWaterfall_needs : asyncWaterfall.Needs ["await"] := RuleInfo.needs_runs

theorem awaitInLoop_needs : awaitInLoop.Needs ["await", "forEach"] :=
  RuleInfo.needs fun path content s hs => by
    rcases List.mem_append.mp (Spot.mem_sort.mp hs) with hs | hs
    · obtain ⟨b, hb, rfl⟩ := List.mem_map.mp hs
      obtain ⟨offset, hoffset, _⟩ := List.any_eq_true.mp (List.mem_filter.mp hb).2
      obtain ⟨m, hm, rfl⟩ := List.mem_map.mp hoffset
      have hawait : awaitKeyword.Demands "await" := ((demands_lit (by decide)).right _).left _
      exact ⟨"await", by simp, hawait.has_of_findAll hm⟩
    · obtain ⟨m, hm, rfl⟩ := List.mem_map.mp hs
      have hforEach : forEachAsync.Demands "forEach" := (((demands_lit (by decide)).left _).left _).left _
      exact ⟨"forEach", by simp, hforEach.has_of_findAll hm⟩

/-- A spot before a guard is that of a statement. -/
theorem exists_ofLine_of_mem_deferSpots {s : Spot} {ls : List (Nat × Text)} (hs : s ∈ deferSpots ls) :
    ∃ x ∈ ls, (AwaitStatement.ofLine x.1 x.2).isSome := by
  fun_induction deferSpots ls with
  | case1 => cases hs
  | case2 n line rest hnone ih =>
    obtain ⟨x, hx, hsome⟩ := ih hs
    exact ⟨x, List.mem_cons_of_mem _ hx, hsome⟩
  | case3 n line rest a hsome => exact ⟨(n, line), List.mem_cons_self, Option.isSome_iff_exists.mpr ⟨a, hsome⟩⟩
  | case4 n line rest a hsome => exact ⟨(n, line), List.mem_cons_self, Option.isSome_iff_exists.mpr ⟨a, hsome⟩⟩

theorem deferAwait_needs : deferAwait.Needs ["await"] :=
  RuleInfo.needs_word fun path content s hs => by
    obtain ⟨x, hx, hsome⟩ := exists_ofLine_of_mem_deferSpots hs
    obtain ⟨a, ha⟩ := Option.isSome_iff_exists.mp hsome
    exact has_of_numberedLines hx (Text.has_iff.mpr (AwaitStatement.ofLine_spec ha).2.2)

/-! ## Imports -/

theorem importStart_demands : importStart.Demands "import" := (demands_lit (s := "import") (by decide)).seqAll (by simp)

theorem staticImport_demands : staticImport.Demands "import" := importStart_demands.seqAll (by simp)

theorem namedImport_demands : namedImport.Demands "import" := importStart_demands.seqAll (by simp)

theorem lodashImport_demands : lodashImport.Demands "lodash" := by
  have hname : lodashName.Demands "lodash" := ((demands_lit (by decide)).right _).left _
  exact (hname.seqAll (by simp)).alt (hname.seqAll (by simp))

theorem exists_match_of_valueImports {p : Pattern} {n : Nat} {r : ImportRef} (hr : r ∈ valueImports p n content) :
    ∃ m, m ∈ p.findAll content := by
  obtain ⟨m, hm, _⟩ := List.mem_filterMap.mp hr
  exact ⟨m, hm⟩

theorem heavyImport_needs (tables : RuleTables) : (heavyImport tables).Needs ["import"] :=
  RuleInfo.needs_match staticImport_demands fun path content s hs => by
    obtain ⟨r, hr, _⟩ := List.mem_map.mp hs
    exact exists_match_of_valueImports (List.mem_filter.mp hr).1

theorem barrelImport_needs (tables : RuleTables) : (barrelImport tables).Needs ["import"] :=
  RuleInfo.needs_match namedImport_demands fun path content s hs => by
    obtain ⟨r, hr, _⟩ := List.mem_map.mp hs
    exact exists_match_of_valueImports (List.mem_filter.mp hr).1

theorem lodashFull_needs : lodashFull.Needs ["lodash"] :=
  RuleInfo.needs_match lodashImport_demands fun path content s hs => by
    obtain ⟨m, hm, _⟩ := List.mem_map.mp hs
    exact ⟨m, hm⟩

theorem pagesRouter_needs : pagesRouter.Needs ["next/router"] :=
  RuleInfo.needs_word fun path content s hs => by
    split at hs
    · cases hs
    obtain ⟨r, hr, _⟩ := List.mem_map.mp hs
    obtain ⟨hr, hspecifier⟩ := List.mem_filter.mp hr
    obtain ⟨m, hm, hgroup⟩ := List.mem_filterMap.mp hr
    obtain ⟨c, hc, rfl⟩ := Option.map_eq_some_iff.mp hgroup
    -- the specifier is a part of the file
    obtain ⟨pre, w, post, g, hof⟩ := findAll_of hm
    have hin : c.text <:+: content := hof.group_infix hc (by decide)
    exact Text.has_iff.mpr (eq_of_beq hspecifier ▸ hin)

/-! ## The boundary between server and browser -/

theorem environmentRead_demands : environmentRead.Demands "process.env" :=
  (demands_lit (s := "process.env.") (by decide)).seqAll (by simp)

theorem secretInClient_needs : secretInClient.Needs ["process.env"] :=
  RuleInfo.needs_word fun path content s hs => by
    split at hs
    · cases hs
    obtain ⟨x, hx, hs⟩ := List.mem_flatMap.mp hs
    obtain ⟨m, hm, _⟩ := List.mem_filterMap.mp hs
    exact has_of_codeLines hx (environmentRead_demands.has_of_findAll hm)

theorem has_of_mem_indexes {k : Nat} (hk : k ∈ Text.indexes word.toList content) :
    content.has word = true := by
  obtain ⟨pre, post, rfl, _⟩ := mem_indexes hk
  exact Text.has_iff.mpr ⟨pre, post, List.append_assoc _ _ _⟩

theorem inlineActionInClient_needs : inlineActionInClient.Needs ["use server"] :=
  RuleInfo.needs_word fun path content s hs => by
    split at hs
    · cases hs
    obtain ⟨x, hx, hs⟩ := List.mem_filterMap.mp hs
    obtain ⟨offset, hoffset, _⟩ := Option.map_eq_some_iff.mp hs
    refine has_of_numberedLines (List.mem_of_mem_drop hx) ?_
    rcases Option.or_eq_some_iff.mp hoffset with h | ⟨_, h⟩
    · exact Text.has_of_has (has_of_mem_indexes (List.mem_of_head? h)) (by decide)
    · exact Text.has_of_has (has_of_mem_indexes (List.mem_of_head? h)) (by decide)

/-! ## State and effects -/

theorem stateDeclaration_demands : stateDeclaration.Demands "useState" :=
  (demands_lit (s := "useState") (by decide)).seqAll (by simp)

theorem stateInitCall_demands : stateInitCall.Demands "useState" :=
  (demands_lit (s := "useState") (by decide)).seqAll (by simp)

theorem has_of_statePairs {pair : Text × Text} (h : pair ∈ statePairs content) : content.has "useState" = true := by
  obtain ⟨m, hm, _⟩ := List.mem_filterMap.mp h
  exact stateDeclaration_demands.has_of_findAll hm

/-- The functions that register an effect. -/
def effectNames : List String := ["useEffect", "useLayoutEffect"]

theorem has_of_effectCalls {e : EffectCall} (he : e ∈ effectCalls content) :
    content.has "useEffect" = true ∨ content.has "useLayoutEffect" = true := by
  obtain ⟨m, hm, _⟩ := List.mem_filterMap.mp he
  obtain ⟨pre, w, post, g, hof⟩ := findAll_of hm
  obtain ⟨_, u, _, _, _, hu, htakes⟩ :=
    seqAll_takes (p := alt (lit "useEffect") (lit "useLayoutEffect")) hof.takes (by simp)
  have hin : u <:+: content := hu.trans ⟨pre, post, by rw [hof.text_eq, List.append_assoc]⟩
  rcases htakes with htakes | htakes
  · exact Or.inl (Text.has_iff.mpr (literal_takes htakes ▸ hin))
  · exact Or.inr (Text.has_iff.mpr (literal_takes htakes ▸ hin))

theorem exists_effectName_of_effectCalls {e : EffectCall} (he : e ∈ effectCalls content) :
    ∃ word ∈ effectNames, content.has word = true := by
  rcases has_of_effectCalls he with h | h
  · exact ⟨_, by simp [effectNames], h⟩
  · exact ⟨_, by simp [effectNames], h⟩

theorem derivedState_needs_state : derivedState.Needs ["useState"] :=
  RuleInfo.needs_word fun path content s hs => by
    dsimp only at hs
    split at hs
    · cases hs
    rename_i hsetters
    obtain ⟨pair, hpair⟩ := List.exists_mem_of_ne_nil (statePairs content) fun hnil => by simp [hnil] at hsetters
    exact has_of_statePairs hpair

theorem derivedState_needs_effect : derivedState.Needs effectNames :=
  RuleInfo.needs fun path content s hs => by
    dsimp only at hs
    split at hs
    · cases hs
    obtain ⟨e, he, _⟩ := List.mem_filterMap.mp hs
    exact exists_effectName_of_effectCalls he

theorem functionalSetState_needs : functionalSetState.Needs ["useState"] :=
  RuleInfo.needs_word fun path content s hs => by
    obtain ⟨pair, hpair, _⟩ := List.mem_flatMap.mp (Spot.mem_sort.mp hs)
    exact has_of_statePairs hpair

theorem lazyStateInit_needs : lazyStateInit.Needs ["useState"] :=
  RuleInfo.needs_match stateInitCall_demands fun path content s hs => by
    obtain ⟨m, hm, _⟩ := List.mem_filterMap.mp hs
    exact ⟨m, hm⟩

theorem effectWithoutDependencies_needs : effectWithoutDependencies.Needs ["Effect"] :=
  RuleInfo.needs_word fun path content s hs => by
    obtain ⟨e, he, _⟩ := List.mem_map.mp hs
    rcases has_of_effectCalls (List.mem_filter.mp he).1 with h | h
    · exact Text.has_of_has h (by decide)
    · exact Text.has_of_has h (by decide)

theorem fetchInEffect_needs : fetchInEffect.Needs effectNames :=
  RuleInfo.needs fun path content s hs => by
    split at hs
    · cases hs
    obtain ⟨e, he, _⟩ := List.mem_filterMap.mp hs
    exact exists_effectName_of_effectCalls he

/-! ## Markup -/

theorem contextValue_demands : contextValue.Demands "value=\x7b\x7b" :=
  (demands_lit (s := "value=\x7b\x7b") (by decide)).seqAll (by simp)

theorem indexKeyPattern_demands : indexKeyPattern.Demands "key=" := by
  have hkey : (lit "key=\x7b").Demands "key=" := demands_lit (by decide)
  exact (hkey.seqAll (by simp)).alt (hkey.seqAll (by simp))

theorem conditionalMarkup_demands : conditionalMarkup.Demands "&&" :=
  (demands_lit (s := "&&") (by decide)).seqAll (by simp)

theorem imageStart_demands : imageStart.Demands "<img" := (demands_lit (by decide)).left _

theorem internalAnchor_demands : internalAnchor.Demands "<a" := (demands_lit (s := "<a") (by decide)).seqAll (by simp)

theorem inlineContextValue_needs : inlineContextValue.Needs ["value=\x7b\x7b"] :=
  RuleInfo.needs_match contextValue_demands fun path content s hs => by
    obtain ⟨m, hm, _⟩ := List.mem_filterMap.mp hs
    exact ⟨m, hm⟩

theorem indexKey_needs : indexKey.Needs ["key="] :=
  RuleInfo.needs_match indexKeyPattern_demands fun path content s hs => by
    obtain ⟨m, hm, _⟩ := List.mem_map.mp hs
    exact ⟨m, hm⟩

theorem numericConditional_needs : numericConditional.Needs ["&&"] :=
  RuleInfo.needs_match conditionalMarkup_demands fun path content s hs => by
    obtain ⟨m, hm, _⟩ := List.mem_filterMap.mp hs
    exact ⟨m, hm⟩

theorem rawImage_needs : rawImage.Needs ["<img"] :=
  RuleInfo.needs_word fun path content s hs => by
    split at hs
    · cases hs
    obtain ⟨x, hx, hs⟩ := List.mem_flatMap.mp hs
    obtain ⟨m, hm, _⟩ := List.mem_map.mp hs
    exact has_of_codeLines hx (imageStart_demands.has_of_findAll hm)

theorem rawAnchor_needs : rawAnchor.Needs ["<a"] :=
  RuleInfo.needs_match internalAnchor_demands fun path content s hs => by
    obtain ⟨m, hm, _⟩ := List.mem_map.mp hs
    exact ⟨m, hm⟩

theorem dangerousHtml_needs : dangerousHtml.Needs ["dangerouslySetInnerHTML"] :=
  RuleInfo.needs_word fun path content s hs => by
    split at hs
    · cases hs
    obtain ⟨offset, hoffset, _⟩ := List.mem_map.mp hs
    exact has_of_mem_indexes hoffset

/-! ## Plain code and routes -/

theorem includesCall_demands : includesCall.Demands ".includes(" :=
  (demands_lit (s := ".includes(") (by decide)).seqAll (by simp)

theorem deepClone_demands : deepClone.Demands "JSON.parse" := ((demands_lit (by decide)).left _).left _

theorem consoleCall_demands : consoleCall.Demands "console." :=
  (demands_lit (s := "console.") (by decide)).seqAll (by simp)

theorem filterThenMap_demands : filterThenMap.Demands ".filter(" :=
  (demands_lit (s := ".filter(") (by decide)).seqAll (by simp)

theorem metadataExport_demands : metadataExport.Demands "etadata" := by
  have hconst : (seqAll [lit "const", gap, lit "metadata", wordBoundary]).Demands "etadata" :=
    (demands_lit (s := "metadata") (by decide)).seqAll (by simp)
  have hfunction :
      (seqAll [opt (lit "async" ++ gap), lit "function", gap, lit "generateMetadata", wordBoundary]).Demands
      "etadata" := (demands_lit (s := "generateMetadata") (by decide)).seqAll (by simp)
  exact (hconst.alt hfunction).seqAll (by simp)

theorem tryStart_demands : tryStart.Demands "try" := (demands_lit (s := "try") (by decide)).seqAll (by simp)

theorem setLookups_needs : setLookups.Needs [".includes("] :=
  RuleInfo.needs_word fun path content s hs => by
    obtain ⟨x, hx, hs⟩ := List.mem_filterMap.mp hs
    simp only [Option.bind_eq_bind, Option.bind_eq_some_iff] at hs
    obtain ⟨m, _, param, _, receiver, hreceiver, _⟩ := hs
    obtain ⟨call, hcall, _⟩ := List.exists_of_findSome?_eq_some hreceiver
    have hhas := Text.has_of_infix (includesCall_demands.has_of_findAll hcall) (Text.dropBytes_suffix_self _ _).isInfix
    exact has_of_codeLines hx hhas

theorem structuredClone_needs : structuredClone.Needs ["JSON.parse"] :=
  RuleInfo.needs_match deepClone_demands fun path content s hs => by
    obtain ⟨m, hm, _⟩ := List.mem_map.mp hs
    exact ⟨m, hm⟩

theorem noConsole_needs : noConsole.Needs ["console."] :=
  RuleInfo.needs_word fun path content s hs => by
    split at hs
    · cases hs
    obtain ⟨x, hx, hs⟩ := List.mem_flatMap.mp hs
    obtain ⟨m, hm, _⟩ := List.mem_map.mp hs
    exact has_of_codeLines hx (consoleCall_demands.has_of_findAll hm)

theorem combineIterations_needs : combineIterations.Needs [".filter("] :=
  RuleInfo.needs_word fun path content s hs => by
    obtain ⟨x, hx, hs⟩ := List.mem_filterMap.mp hs
    simp only [Option.bind_eq_bind, Option.bind_eq_some_iff] at hs
    obtain ⟨m, hm, _⟩ := hs
    exact has_of_codeLines hx (filterThenMap_demands.has_of_find hm)

theorem metadataInClient_needs : metadataInClient.Needs ["etadata"] :=
  RuleInfo.needs_match metadataExport_demands fun path content s hs => by
    split at hs
    · cases hs
    obtain ⟨m, hm, _⟩ := List.mem_map.mp hs
    exact ⟨m, hm⟩

theorem redirectInTry_needs : redirectInTry.Needs ["try"] :=
  RuleInfo.needs_match tryStart_demands fun path content s hs => by
    obtain ⟨call, hcall, _⟩ := List.mem_map.mp (Spot.mem_sort.mp hs)
    obtain ⟨m, hm, _⟩ := List.mem_flatMap.mp ((firstOfEach_sublist _ _).subset hcall)
    exact ⟨m, hm⟩

/-! ## Properties of components -/

theorem propsStart_demands : propsStart.Demands "Props" := by
  have hname : (capitalName ++ lit "Props").Demands "Props" := (demands_lit (by decide)).right _
  have hinterface : (seqAll [lit "interface", gap, group 1 (capitalName ++ lit "Props"), wordBoundary,
      many (butNot ['\x7b', '=']), lit "\x7b"]).Demands "Props" := (hname.group 1).seqAll (by simp)
  have htype : (seqAll [lit "type", gap, group 2 (capitalName ++ lit "Props"), blanks, opt (enclosed '<' '>'), blanks,
      lit "=", blanks, lit "\x7b"]).Demands "Props" := (hname.group 2).seqAll (by simp)
  exact (hinterface.alt htype).seqAll (by simp)

theorem exists_match_of_propsBlocks {block : PropsBlock} (hb : block ∈ propsBlocks content) :
    ∃ m, m ∈ propsStart.findAll content := by
  obtain ⟨m, hm, _⟩ := List.mem_filterMap.mp hb
  exact ⟨m, hm⟩

theorem infix_of_mem_membersFrom {acc member t : Text} {depth : Int} {prev : Char}
    (h : member ∈ membersFrom acc depth prev t) :
    member <:+: acc.reverse ++ t := by
  fun_induction membersFrom acc depth prev t with
  | case1 acc =>
    obtain rfl := List.mem_singleton.mp h
    exact (List.prefix_append _ _).isInfix
  | case2 acc depth prev c t _ ih => simpa using ih h
  | case3 acc depth prev c t _ _ ih => simpa using ih h
  | case4 acc depth prev c t _ _ _ ih => simpa using ih h
  | case5 acc depth prev c t _ _ _ _ ih =>
    rcases List.mem_cons.mp h with rfl | h
    · exact (List.prefix_append _ _).isInfix
    · exact (ih h).trans (List.suffix_append_of_suffix (List.suffix_cons c t)).isInfix
  | case6 acc depth prev c t _ _ _ _ ih => simpa using ih h

theorem infix_of_mem_topLevelMembers {member body : Text} (h : member ∈ topLevelMembers body) : member <:+: body := by
  obtain ⟨m, hm, rfl⟩ := List.mem_map.mp (List.mem_filter.mp h).1
  exact (Text.trim_infix_self m).trans (infix_of_mem_membersFrom hm)

/-- The type of a property stands in the file. -/
theorem infix_of_mem_fields {block : PropsBlock} (hb : block ∈ propsBlocks content) {name type : Text}
    (hfield : (name, type) ∈ block.fields) : type <:+: content := by
  simp only [propsBlocks, List.mem_filterMap, Option.bind_eq_bind, Option.bind_eq_some_iff, Option.pure_def,
    Option.some.injEq] at hb
  obtain ⟨m, _, blockName, _, close, _, rfl⟩ := hb
  simp only [List.mem_filterMap, Option.bind_eq_some_iff, Option.some.injEq, Prod.mk.injEq] at hfield
  obtain ⟨member, hmember, f, hf, c₁, _, c₂, hc₂, _, rfl⟩ := hfield
  obtain ⟨pre, w, post, g, hof⟩ := find_of hf
  have htype : c₂.text <:+: member := hof.group_infix hc₂ (by decide)
  exact (Text.trim_infix_self _).trans
    (htype.trans ((infix_of_mem_topLevelMembers hmember).trans (Text.slice_infix_self _ _ _)))

theorem booleanProps_needs_props (tables : RuleTables) : (booleanProps tables).Needs ["Props"] :=
  RuleInfo.needs_match propsStart_demands fun path content s hs => by
    obtain ⟨block, hb, _⟩ := List.mem_filterMap.mp hs
    exact exists_match_of_propsBlocks hb

theorem booleanProps_needs_boolean (tables : RuleTables) : (booleanProps tables).Needs ["boolean"] :=
  RuleInfo.needs_word fun path content s hs => by
    obtain ⟨block, hb, hs⟩ := List.mem_filterMap.mp hs
    dsimp only at hs
    split at hs
    · cases hs
    rename_i hlimit
    -- there are flags
    obtain ⟨⟨name, type⟩, hflag⟩ := List.exists_mem_of_length_pos (lt_of_lt_of_le (by decide) (not_lt.mp hlimit))
    obtain ⟨hfield, htype⟩ := List.mem_filter.mp hflag
    obtain rfl : type = "boolean".toList := eq_of_beq (Bool.and_eq_true_iff.mp htype).1
    exact Text.has_iff.mpr (infix_of_mem_fields hb hfield)

theorem tooManyProps_needs : tooManyProps.Needs ["Props"] :=
  RuleInfo.needs_match propsStart_demands fun path content s hs => by
    obtain ⟨block, hb, _⟩ := List.mem_map.mp hs
    exact exists_match_of_propsBlocks (List.mem_filter.mp hb).1

/-! ## Returned markup -/

theorem returnParen_demands : returnParen.Demands "return" := (((demands_lit (by decide)).right _).left _).left _

/-- A line without the word leaves the tracker outside. -/
theorem feed_outside_of_not_has (h : line.has "return" = false) :
    ReturnBlock.outside.feed line = (false, .outside) := by
  have hfind : returnParen.find line = none := by
    refine Option.eq_none_iff_forall_ne_some.mpr fun m hm => ?_
    rw [returnParen_demands.has_of_find hm] at h
    cases h
  have hends : ReturnBlock.endsWithReturn line = false := by
    rw [ReturnBlock.endsWithReturn]
    split
    · rename_i rest hrest
      obtain ⟨w, _, hline⟩ := Text.exists_trimEnd line
      have hin : "return".toList <:+: line := ⟨rest, w, by rw [← Text.before?_eq_some_iff.mp hrest]; exact hline.symm⟩
      rw [Text.has_iff.mpr hin] at h
      cases h
    · rfl
  rw [ReturnBlock.feed, ReturnBlock.feedOutside, hfind, hends]
  rfl

theorem mark_outside_of_not_has {ls : List Text} (h : ∀ line ∈ ls, line.has "return" = false) :
    ∀ b ∈ ReturnBlock.outside.mark ls, b = false := by
  induction ls with
  | nil => simp [ReturnBlock.mark]
  | cons line ls ih =>
    obtain ⟨hline, hls⟩ := List.forall_mem_cons.mp h
    rw [ReturnBlock.mark, feed_outside_of_not_has hline]
    exact List.forall_mem_cons.mpr ⟨rfl, ih hls⟩

theorem has_of_returnedLines (hx : x ∈ returnedLines (numberedLines content)) : content.has "return" = true := by
  by_contra hnot
  obtain ⟨⟨y, b⟩, hy, rfl⟩ := List.mem_map.mp hx
  obtain ⟨hzip, hb⟩ := List.mem_filter.mp hy
  have hnone : ∀ line ∈ (numberedLines content).map Prod.snd, line.has "return" = false := by
    rintro _ hline
    obtain ⟨z, hz, rfl⟩ := List.mem_map.mp hline
    exact Bool.eq_false_iff.mpr fun hhas => hnot (has_of_numberedLines hz hhas)
  rw [mark_outside_of_not_has hnone b (List.of_mem_zip hzip).2] at hb
  cases hb

theorem browserApi_needs (tables : RuleTables) : (browserApi tables).Needs ["return"] :=
  RuleInfo.needs_word fun path content s hs => by
    split at hs
    · cases hs
    obtain ⟨x, hx, _⟩ := List.mem_flatMap.mp hs
    exact has_of_returnedLines (List.mem_filter.mp hx).1

/-! ## All rules -/

/-- Whether the rule needs the words of a clue. Where the clue is `useEffect`, either name of an effect may do. -/
def Rule.NeedsClue (r : Rule) (words : List String) : Prop := r.Needs words ∨ words = ["useEffect"] ∧
    r.Needs effectNames

theorem Rule.Needs.onlyClue {r : Rule} (h : r.Needs words) : ∀ clue ∈ [words], r.NeedsClue clue :=
  List.forall_mem_singleton.mpr (Or.inl h)

/-- All rules need the words of each of their clues, or another name of an effect. -/
theorem builtinRules_needs (tables : RuleTables) : ∀ r ∈ builtinRules tables, ∀ words ∈ r.clues, r.NeedsClue words := by
  -- a rule without clues looks at every file
  have hnone (r : Rule) : ∀ words ∈ [], r.NeedsClue words := fun _ h => absurd h List.not_mem_nil
  simp only [builtinRules, List.forall_mem_cons]
  exact ⟨asyncParallel_needs.onlyClue, asyncWaterfall_needs.onlyClue, awaitInLoop_needs.onlyClue,
    deferAwait_needs.onlyClue, (heavyImport_needs tables).onlyClue, (barrelImport_needs tables).onlyClue,
    lodashFull_needs.onlyClue, hnone _, secretInClient_needs.onlyClue, hnone _, inlineActionInClient_needs.onlyClue,
    List.forall_mem_cons.mpr ⟨Or.inl derivedState_needs_state,
      List.forall_mem_singleton.mpr (Or.inr ⟨rfl, derivedState_needs_effect⟩)⟩,
    functionalSetState_needs.onlyClue, lazyStateInit_needs.onlyClue, effectWithoutDependencies_needs.onlyClue,
    inlineContextValue_needs.onlyClue, indexKey_needs.onlyClue,
    List.forall_mem_singleton.mpr (Or.inr ⟨rfl, fetchInEffect_needs⟩),
    (browserApi_needs tables).onlyClue, hnone _, numericConditional_needs.onlyClue, rawImage_needs.onlyClue,
    rawAnchor_needs.onlyClue, dangerousHtml_needs.onlyClue,
    List.forall_mem_cons.mpr ⟨Or.inl (booleanProps_needs_props tables), (booleanProps_needs_boolean tables).onlyClue⟩,
    hnone _, tooManyProps_needs.onlyClue,
    hnone _, setLookups_needs.onlyClue, structuredClone_needs.onlyClue, noConsole_needs.onlyClue,
    combineIterations_needs.onlyClue,
    hnone _, metadataInClient_needs.onlyClue, pagesRouter_needs.onlyClue, redirectInTry_needs.onlyClue,
    fun _ h => absurd h List.not_mem_nil⟩

/-- The look at the clues changes nothing if the rule finds nothing in a file without one of its clues. -/
theorem Rule.detect_eq_inspect {r : Rule} {path : String} (h : ∀ words ∈ r.clues,
    (∀ word ∈ words, content.has word = false) → r.inspect path content = .ok []) :
    r.detect path content = r.inspect path content := by
  rw [Rule.detect]
  split
  · rfl
  · rename_i hclues
    simp only [Rule.hasClues, List.all_eq_true, List.any_eq_true, not_forall, not_exists, not_and,
      Bool.not_eq_true] at hclues
    obtain ⟨words, hwords, hnot⟩ := hclues
    exact (h words hwords hnot).symm

/-- **The clues are a shortcut.** In a file without the words of one of its clues a rule would find nothing if it
looked, and so it finds in every file what it would find without a look at its clues. This holds of each rule, clue
and file, unless the clue is `useEffect`: then a file without it must not have the other name of an effect,
`useLayoutEffect`. -/
theorem builtinRules_detect_eq_inspect (tables : RuleTables) {r : Rule} (hr : r ∈ builtinRules tables) (path : String)
    (content : Text) :
    (∀ words ∈ r.clues, (words = ["useEffect"] → content.has "useLayoutEffect" = false) →
      (∀ word ∈ words, content.has word = false) → r.inspect path content = .ok []) ∧
    ((["useEffect"] ∈ r.clues → content.has "useLayoutEffect" = true → content.has "useEffect" = true) →
      r.detect path content = r.inspect path content) := by
  have hempty : ∀ words ∈ r.clues, (words = ["useEffect"] → content.has "useLayoutEffect" = false) →
      (∀ word ∈ words, content.has word = false) → r.inspect path content = .ok [] := by
    intro words hwords hlayout hnone
    rcases builtinRules_needs tables r hr words hwords with hneeds | ⟨rfl, hneeds⟩
    · exact hneeds path content hnone
    · refine hneeds path content fun word hword => ?_
      rcases List.mem_pair.mp hword with rfl | rfl
      · exact hnone _ (List.mem_singleton_self _)
      · exact hlayout rfl
  refine ⟨hempty, fun hsame => Rule.detect_eq_inspect fun words hwords hnone => hempty words hwords ?_ hnone⟩
  rintro rfl
  have heffect : content.has "useEffect" = false := hnone _ (List.mem_singleton_self _)
  by_contra hlayout
  rw [hsame hwords (Bool.not_eq_false _ ▸ hlayout)] at heffect
  cases heffect

/-- An effect of either name in a file that has both names: the rule finds the first one. Without the names it finds
nothing. -/
theorem fetchInEffect_detect_eq_inspect :
    let content : Text := "useLayoutEffect(() => \x7b\n  fetch(\"/api\");\n\x7d, []);\nuseEffect(run);\n".toList
    let bare : Text := "fetch(\"/api\");\n".toList
    fetchInEffect ∈ builtinRules .standard ∧ ["useEffect"] ∈ fetchInEffect.clues ∧
      content.has "useLayoutEffect" = true ∧ content.has "useEffect" = true ∧
      fetchInEffect.detect "a.tsx" content = fetchInEffect.inspect "a.tsx" content ∧
      (fetchInEffect.detect "a.tsx" content).toOption.map (·.map fun f => (f.location.line, f.location.column)) =
        some [(1, 1)] ∧
      bare.has "useLayoutEffect" = false ∧ bare.has "useEffect" = false ∧
      fetchInEffect.inspect "a.tsx" bare = .ok [] := by
  intro content bare
  have hmem : fetchInEffect ∈ builtinRules .standard := by simp [builtinRules]
  have hclue : ["useEffect"] ∈ fetchInEffect.clues := List.mem_singleton_self _
  have heffect : content.has "useEffect" = true := by decide +kernel
  have hlayout : bare.has "useLayoutEffect" = false := by decide +kernel
  have hbare : bare.has "useEffect" = false := by decide +kernel
  exact ⟨hmem, hclue, by decide +kernel, heffect,
    (builtinRules_detect_eq_inspect .standard hmem "a.tsx" content).2 fun _ _ => heffect, by decide +kernel,
    hlayout, hbare, (builtinRules_detect_eq_inspect .standard hmem "a.tsx" bare).1 _ hclue (fun _ => hlayout)
      (List.forall_mem_singleton.mpr hbare)⟩

/-- An effect of the other name alone: a look would find it, but the rule takes the file for one without effects. -/
theorem fetchInEffect_misses_layoutEffect :
    let content : Text := "useLayoutEffect(() => \x7b\n  fetch(\"/api\");\n\x7d, []);\n".toList
    fetchInEffect ∈ builtinRules .standard ∧ fetchInEffect.clues = [["useEffect"]] ∧ content.has "useEffect" = false ∧
      (fetchInEffect.inspect "a.tsx" content).toOption.map (·.map fun f => (f.location.line, f.location.column)) =
        some [(1, 1)] ∧
      fetchInEffect.detect "a.tsx" content = .ok [] := by
  intro content
  exact ⟨by simp [builtinRules], rfl, by decide +kernel, by decide +kernel, by rfl⟩

/-- The other rule with this clue misses such an effect in the same way. -/
example :
    let content : Text := "const [a, setA] = useState(0);\nuseLayoutEffect(() => \x7b setA(b); \x7d, [b]);\n".toList
    (derivedState.inspect "a.tsx" content).toOption.map (·.map fun f => (f.location.line, f.location.column)) =
      some [(2, 1)] ∧ derivedState.detect "a.tsx" content = .ok [] := ⟨by decide +kernel, by rfl⟩

end Checkup
