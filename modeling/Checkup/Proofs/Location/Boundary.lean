import Checkup.Proofs.Location.Basic
import Checkup.Rule.Boundary
import Checkup.Rule.Bundle
import Checkup.Rule.Route

/-!
# Spots about imports, the server and routes

A specifier starts inside its quotation marks: even if it starts with a carriage return, no line feed follows
(`imports_on`). Occurrences of a text that holds no line break are on lines (`indexes_on`), and so are calls in a part
of the file that a `try` encloses (`navigationsInTry_on`).
-/

namespace Checkup

open Pattern

variable {content : Text} {message help : String} {ls : List (Nat × Text)} {s : Spot}

/-! ## Imports -/

/-- The place of a specifier is on a line. -/
theorem imports_on {r : ImportRef} (hr : r ∈ imports content) :
    (Spot.atOffset content r.offset message help).On (numberedLines content) := by
  simp only [imports, List.mem_filterMap, Option.map_eq_some_iff] at hr
  obtain ⟨m, hm, c, hc, rfl⟩ := hr
  obtain ⟨pre, w, post, g, hof⟩ := findAll_of hm
  -- the last quotation mark and the group before it
  obtain ⟨u, _, _, rfl, ⟨v, w, _, rfl, _, _, hspec, rfl⟩, ⟨q, rfl, hq⟩, rfl⟩ := hof.takes
  obtain ⟨x, w, rfl, hx⟩ := opens_takes (s := ['\'', '\"', '\n']) (by decide) hspec
  have hw := within_takes (s := ['\n']) (by decide) hspec
  have hstart : c.start = Text.byteSize (pre ++ v) := by
    rw [hof.eq] at hc
    simp only [Match.group?, captures, List.map_cons, List.lookup_cons_self, Option.some.injEq] at hc
    rw [← hc]
    rfl
  have ht : content = (pre ++ v) ++ x :: (w ++ q :: post) := by simpa using hof.text_eq
  rw [hstart, ht]
  refine Spot.on_atOffset _ (fun e => hx (by simp [e])) fun _ hnext => ?_
  cases w with
  | nil =>
    cases hnext
    cases hq
  | cons y w =>
    cases hnext
    exact hw '\n' (by simp) (by simp)

theorem valueImports_on {p : Pattern} {k : Nat} (hp : p.inks = true) {r : ImportRef}
    (hr : r ∈ valueImports p k content) :
    (Spot.atOffset content r.offset message help).On (numberedLines content) := by
  obtain ⟨m, hm, hr⟩ := List.mem_filterMap.mp hr
  obtain ⟨pre, w, post, g, hof⟩ := findAll_of hm
  split at hr
  · cases hr
  · obtain ⟨c, _, rfl⟩ := Option.map_eq_some_iff.mp hr
    exact hof.on_inkStart hp

/-- Spots about some of the imports are on lines if the places of all of them are. -/
theorem importSpots_on {rs : List ImportRef} {p : ImportRef → Bool} {message help : ImportRef → String}
    (hrs : ∀ r ∈ rs, ∀ message help, (Spot.atOffset content r.offset message help).On (numberedLines content))
    (hs : s ∈ (rs.filter p).map fun r => Spot.atOffset content r.offset (message r) (help r)) :
    s.On (numberedLines content) := by
  obtain ⟨r, hr, rfl⟩ := List.mem_map.mp hs
  exact hrs r (List.mem_filter.mp hr).1 _ _

theorem heavyImport_located (tables : RuleTables) : (heavyImport tables).Located :=
  ⟨_, rfl, fun _ _ _ hs => importSpots_on (fun _ hr _ _ => valueImports_on (by decide) hr) hs⟩

theorem barrelImport_located (tables : RuleTables) : (barrelImport tables).Located :=
  ⟨_, rfl, fun _ _ _ hs => importSpots_on (fun _ hr _ _ => valueImports_on (by decide) hr) hs⟩

theorem lodashFull_located : lodashFull.Located := by
  refine ⟨_, rfl, fun path content s hs => ?_⟩
  obtain ⟨m, hm, rfl⟩ := List.mem_map.mp hs
  obtain ⟨pre, w, post, g, hof⟩ := findAll_of hm
  exact hof.on_inkStart (by decide)

theorem serverImportInClient_located (tables : RuleTables) : (serverImportInClient tables).Located := by
  refine ⟨_, rfl, fun path content s hs => ?_⟩
  split at hs
  · cases hs
  · exact importSpots_on (fun _ hr _ _ => imports_on hr) hs

theorem pagesRouter_located : pagesRouter.Located := by
  refine ⟨_, rfl, fun path content s hs => ?_⟩
  split at hs
  · cases hs
  · exact importSpots_on (fun _ hr _ _ => imports_on hr) hs

/-! ## Code of the server -/

theorem exportedAction?_partOf {line : Text} {c : Capture} (h : exportedAction? line = some c) : c.PartOf line := by
  simp only [exportedAction?, Option.bind_eq_bind, Option.bind_eq_some_iff] at h
  obtain ⟨m, hm, hc⟩ := h
  obtain ⟨pre, w, post, g, hof⟩ := find_of hm
  exact hof.or_partOf hc (by decide) (by decide)

theorem unauthenticatedSpots_flags {tables : RuleTables} (hs : s ∈ unauthenticatedSpots tables ls) :
    s.Flags (fun line => (exportedAction? line).toList) ls := by
  induction ls with
  | nil => cases hs
  | cons x ls ih =>
    obtain ⟨n, line⟩ := x
    have later (hs : s ∈ unauthenticatedSpots tables ls) :
        s.Flags (fun line => (exportedAction? line).toList) ((n, line) :: ls) :=
      (ih hs).mono fun x hx => List.mem_cons_of_mem _ hx
    rw [unauthenticatedSpots] at hs
    split at hs
    · exact later hs
    · rename_i c hc
      dsimp only at hs
      split at hs
      · rcases List.mem_cons.mp hs with rfl | hs
        · exact Spot.flags_inLine List.mem_cons_self (Option.mem_toList.mpr hc)
        · exact later hs
      · exact later hs

/-- The names of exported server functions. -/
def unauthenticatedActionLines (tables : RuleTables) : LineRule where
  rule := unauthenticatedAction tables
  tokens line := (exportedAction? line).toList
  partOf _ _ hc := exportedAction?_partOf (Option.mem_toList.mp hc)
  flags := by
    refine ⟨_, rfl, fun path content s hs => ?_⟩
    split at hs
    · cases hs
    · exact unauthenticatedSpots_flags hs

/-- Reads of the environment. -/
def secretInClientLines : LineRule where
  rule := secretInClient
  tokens := environmentRead.allTokens
  partOf := allTokens_partOf (by decide)
  flags := by
    refine ⟨_, rfl, fun path content s hs => ?_⟩
    split at hs
    · cases hs
    · simp only [List.mem_flatMap, List.mem_filterMap, Option.bind_eq_bind, Option.bind_eq_some_iff, Prod.exists] at hs
      obtain ⟨n, line, hline, m, hm, name, _, hs⟩ := hs
      split at hs
      · cases hs
      · cases hs
        exact Spot.flags_inLine (codeLines_sub _ hline) (mem_allTokens hm)

/-! ## Occurrences of a text -/

theorem mem_indexesFrom {needle : Text} (pre : Text) {rest : Text} {size resume k : Nat}
    (h : k ∈ Text.indexesFrom needle size (Text.byteSize pre) resume rest) :
    ∃ pre' post, pre ++ rest = pre' ++ (needle ++ post) ∧ k = Text.byteSize pre' := by
  induction rest generalizing pre resume with
  | nil => cases h
  | cons c rest ih =>
    have later {resume : Nat} (h : k ∈ Text.indexesFrom needle size (Text.byteSize pre + c.utf8Size) resume rest) :
        ∃ pre' post, pre ++ c :: rest = pre' ++ (needle ++ post) ∧ k = Text.byteSize pre' := by
      have step : k ∈ Text.indexesFrom needle size (Text.byteSize (pre ++ [c])) resume rest := by
        simpa [Text.byteSize_singleton] using h
      simpa using ih _ step
    rw [Text.indexesFrom] at h
    split at h
    · rename_i hc
      rcases List.mem_cons.mp h with rfl | h
      · simp only [Bool.and_eq_true] at hc
        obtain ⟨post, hpost⟩ := List.isPrefixOf_iff_prefix.mp hc.2
        exact ⟨pre, post, by rw [← hpost], rfl⟩
      · exact later h
    · exact later h

/-- What `indexes` lists are offsets of occurrences. -/
theorem mem_indexes {needle t : Text} {k : Nat} (h : k ∈ Text.indexes needle t) :
    ∃ pre post, t = pre ++ (needle ++ post) ∧ k = Text.byteSize pre := mem_indexesFrom [] h

/-- The place of an occurrence of a text that does not start with a part of a line break is on a line. -/
theorem indexes_on {needle w : Text} {x : Char} {k : Nat} (h : k ∈ Text.indexes needle content)
    (hneedle : needle = x :: w) (hn : x ≠ '\n') (hr : x ≠ '\r') :
    (Spot.atOffset content k message help).On (numberedLines content) := by
  obtain ⟨pre, post, rfl, rfl⟩ := mem_indexes h
  subst hneedle
  exact Spot.on_atOffset pre hn fun e => absurd e hr

/-- The first occurrence of a text. -/
def firstPlace (needle t : Text) : Option Capture := (Text.indexOf? needle t).map fun k => ⟨k, needle⟩

theorem firstPlace_partOf {needle t : Text} {c : Capture} (h : firstPlace needle t = some c) (hn : needle ≠ []) :
    c.PartOf t := by
  obtain ⟨k, hk, rfl⟩ := Option.map_eq_some_iff.mp h
  obtain ⟨pre, post, htext, rfl⟩ := mem_indexes (List.mem_of_head? hk)
  exact ⟨hn, pre, post, htext, rfl⟩

/-- The directive of an inline server function in a line. -/
def inlineDirectiveToken? (line : Text) : Option Capture :=
  (firstPlace "\"use server\"".toList line).or (firstPlace "'use server'".toList line)

theorem inlineDirective?_eq (line : Text) : inlineDirective? line = (inlineDirectiveToken? line).map (·.start) := by
  have hstart (needle : Text) : (firstPlace needle line).map (·.start) = Text.indexOf? needle line := by
    rw [firstPlace, Option.map_map]
    exact Option.map_id'
  rw [inlineDirectiveToken?, Option.map_or, hstart, hstart, inlineDirective?]

/-- The directives of inline server functions. -/
def inlineActionInClientLines : LineRule where
  rule := inlineActionInClient
  tokens line := (inlineDirectiveToken? line).toList
  partOf line c hc := by
    rcases Option.or_eq_some_iff.mp (Option.mem_toList.mp hc) with hc | ⟨_, hc⟩
    · exact firstPlace_partOf hc (by decide)
    · exact firstPlace_partOf hc (by decide)
  flags := by
    refine ⟨_, rfl, fun path content s hs => ?_⟩
    split at hs
    · cases hs
    · simp only [List.mem_filterMap, inlineDirective?_eq, Option.map_eq_some_iff, Prod.exists] at hs
      obtain ⟨n, line, hline, k, ⟨c, hc, rfl⟩, rfl⟩ := hs
      exact Spot.flags_inLine (List.mem_of_mem_drop hline) (Option.mem_toList.mpr hc)

/-! ## Routes -/

/-- The line of a directive is not blank. -/
theorem findDirective_line {d : Directive} {n : Nat} (h : findDirective content = some (d, n)) :
    ∃ line, (n, line) ∈ numberedLines content ∧ line ≠ [] := by
  simp only [findDirective, List.findSome?_eq_some_iff] at h
  obtain ⟨l₁, ⟨k, line⟩, l₂, hl, hd, _⟩ := h
  obtain ⟨_, _, hd⟩ := Option.map_eq_some_iff.mp hd
  simp only [Prod.mk.injEq] at hd
  have hx : (k, line) ∈ l₁ ++ (k, line) :: l₂ := by simp
  rw [← hl] at hx
  have hx := List.mem_filter.mp (List.mem_of_mem_take (List.mem_filter.mp hx).1)
  refine ⟨line, hd.2 ▸ hx.1, ?_⟩
  rintro rfl
  cases hx.2

theorem clientPage_located : clientPage.Located := by
  refine ⟨_, rfl, fun path content s hs => ?_⟩
  split at hs
  · rename_i n _ hd
    obtain ⟨line, hline, hne⟩ := findDirective_line hd
    rw [List.mem_singleton.mp hs]
    exact ⟨line, hline, Nat.le_refl 1, Text.byteSize_pos hne⟩
  · cases hs

theorem metadataInClient_located : metadataInClient.Located := by
  refine ⟨_, rfl, fun path content s hs => ?_⟩
  split at hs
  · cases hs
  · obtain ⟨m, hm, rfl⟩ := List.mem_map.mp hs
    obtain ⟨pre, w, post, g, hof⟩ := findAll_of hm
    exact hof.on_inkStart (by decide)

/-- The place of a call in a `try` block is on a line. -/
theorem navigationsInTry_on {k : Nat} {name : Text} (h : (k, name) ∈ navigationsInTry content) :
    (Spot.atOffset content k message help).On (numberedLines content) := by
  simp only [navigationsInTry, List.mem_flatMap] at h
  obtain ⟨m, hm, h⟩ := h
  obtain ⟨pre, w, post, g, hof⟩ := findAll_of hm
  split at h
  · cases h
  · rename_i close _
    simp only [List.mem_filterMap, Option.map_eq_some_iff, Prod.mk.injEq] at h
    obtain ⟨call, hcall, c, _, rfl, _⟩ := h
    have hstop : m.stop = Text.byteSize (pre ++ w) := by rw [hof.eq, Text.byteSize_append]; rfl
    have ht : content = (pre ++ w) ++ post := by rw [hof.text_eq, List.append_assoc]
    obtain ⟨tail, htail⟩ := Text.exists_slice (pre ++ w) post close
    rw [hstop, ht] at hcall
    obtain ⟨pre', w', post', g', hof'⟩ := findAll_of hcall
    obtain ⟨x, w', rfl, hx⟩ := opens_takes (s := ['\n', '\r']) (by decide) hof'.takes
    simp only [List.mem_cons, List.not_mem_nil, or_false, not_or] at hx
    have hk : m.stop + call.start = Text.byteSize (pre ++ w ++ pre') := by
      rw [hstop, hof'.eq, Text.byteSize_append _ pre']
    have ht' : content = (pre ++ w ++ pre') ++ x :: (w' ++ post' ++ tail) := by
      rw [ht, htail, hof'.text_eq]
      simp
    rw [hk, ht']
    exact Spot.on_atOffset _ hx.1 fun e => absurd e hx.2

theorem mem_of_mem_firstOfEach {α : Type} {seen : List Nat} {l : List (Nat × α)} {x : Nat × α}
    (h : x ∈ firstOfEach seen l) : x ∈ l := by
  induction l generalizing seen with
  | nil => cases h
  | cons y l ih =>
    rw [firstOfEach] at h
    split at h
    · exact List.mem_cons_of_mem _ (ih h)
    · rcases List.mem_cons.mp h with rfl | h
      · exact List.mem_cons_self
      · exact List.mem_cons_of_mem _ (ih h)

theorem redirectInTry_located : redirectInTry.Located := by
  refine ⟨_, rfl, fun path content s hs => ?_⟩
  simp only [Spot.mem_sort, List.mem_map, Prod.exists] at hs
  obtain ⟨k, name, h, rfl⟩ := hs
  exact navigationsInTry_on (mem_of_mem_firstOfEach h)

end Checkup
