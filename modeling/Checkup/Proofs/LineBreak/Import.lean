import Checkup.Proofs.LineBreak.Match
import Checkup.Proofs.LineBreak.Rule

/-!
# Imports, routes and carriage returns

Specifiers hold no line feed, so the imports of a file are the same at the same places (`imports_crlf`). Cut out of
the text, the line of an import gets a carriage return at its end, which no call hides behind (`has_lineAt_crlf`). What
a `try` encloses gets its own carriage returns, and the places of calls in it add up (`navigationsInTry_crlf`).
-/

namespace Checkup

open Text (crlf crlf_nil crlf_cons crlf_feed crlf_append Moves MovesAt)
open Pattern

variable {content : Text}

/-! ## Imports -/

/-- Whether two imports are of one module, at the same place of a text. -/
def ImportRef.Twin (t : Text) (r r' : ImportRef) : Prop := r'.specifier = r.specifier ∧ Moves t r.offset r'.offset

theorem imports_crlf (content : Text) :
    List.Forall₂ (ImportRef.Twin content) (imports content) (imports (crlf content)) := by
  have hall := findAll_crlf (p := importPattern) [] (by decide) content
  refine List.rel_filterMap (fun m m' hm => ?_) hall
  exact rel_map (hm.group_same (by simp) (by decide)) fun c c' hc => hc

/-- So are those that bind values, each at the place of its first character that is no blank. -/
theorem valueImports_crlf {p : Pattern} {n : Nat} (free : List Nat) (hp : p.hold free .plain = some .solid)
    (hone : 1 ∉ free) (hn : n ∉ free) (hwithin : p.eachGroup n (within ['\n']) = true) (content : Text) :
    List.Forall₂ (ImportRef.Twin content) (valueImports p n content) (valueImports p n (crlf content)) := by
  refine List.rel_filterMap (fun m m' hm => ?_) (findAll_crlf free hp content)
  rw [isSome_eq_of_rel (hm.group? hone)]
  split
  · exact .none
  · exact rel_map (hm.group_same hn hwithin) fun c c' hc => ⟨hc.1, hm.inkStart⟩

/-- Related imports pass the same tests of their specifiers. -/
theorem filter_imports_crlf {l l' : List ImportRef} (h : List.Forall₂ (ImportRef.Twin content) l l')
    (test : Text → Bool) : List.Forall₂ (ImportRef.Twin content) (l.filter fun r => test r.specifier)
      (l'.filter fun r => test r.specifier) := by
  refine List.rel_filter (fun r r' hr => ?_) h
  show test r.specifier = true ↔ test r'.specifier = true
  rw [hr.1]

theorem serverImportInClient_ignoresReturns (tables : RuleTables) : (serverImportInClient tables).IgnoresReturns := by
  refine Rule.ignoresReturns_of rfl rfl fun path content hc => ?_
  have hfilter := filter_imports_crlf (imports_crlf content) tables.isServerOnly
  simp only [isClientFile_crlf hc]
  split
  · rfl
  · refine map_eq_of_forall₂ hfilter fun r r' hr => ?_
    rw [hr.1, Spot.atOffset_crlf hr.2]

theorem pagesRouter_ignoresReturns : pagesRouter.IgnoresReturns := by
  refine Rule.ignoresReturns_of rfl (by decide) fun path content hc => ?_
  have hfilter := filter_imports_crlf (imports_crlf content) (· == "next/router".toList)
  split
  · rfl
  · exact map_eq_of_forall₂ hfilter fun r r' hr => Spot.atOffset_crlf hr.2 _ _

theorem barrelImport_ignoresReturns (tables : RuleTables) : (barrelImport tables).IgnoresReturns := by
  refine Rule.ignoresReturns_of rfl rfl fun path content hc => ?_
  have himports := valueImports_crlf (p := namedImport) (n := 2) [] (by decide) (by simp) (by simp) (by decide)
    content
  have hfilter := filter_imports_crlf himports fun specifier =>
    tables.barrelPackages.any fun entry => packageMatches entry.toList specifier
  refine map_eq_of_forall₂ hfilter fun r r' hr => ?_
  rw [hr.1, Spot.atOffset_crlf hr.2]

theorem lodashFull_ignoresReturns : lodashFull.IgnoresReturns := by
  refine Rule.ignoresReturns_of rfl (by decide) fun path content hc => ?_
  have hall := findAll_crlf (p := lodashImport) [] (by decide) content
  exact map_eq_of_forall₂ hall fun m m' hm => Spot.atOffset_crlf hm.inkStart _ _

theorem metadataInClient_ignoresReturns : metadataInClient.IgnoresReturns := by
  refine Rule.ignoresReturns_of rfl (by decide) fun path content hc => ?_
  have hall := findAll_crlf (p := metadataExport) [] (by decide) content
  simp only [isClientFile_crlf hc]
  split
  · rfl
  · exact map_eq_of_forall₂ hall fun m m' hm => Spot.atOffset_crlf hm.inkStart _ _

/-! ## The line of an import -/

/-- What stands behind the last line feed does not change. -/
theorem lastLine_crlf (pre : Text) :
    (crlf pre).reverse.takeWhile (· != '\n') = pre.reverse.takeWhile (· != '\n') := by
  induction pre using List.reverseRecOn with
  | nil => rfl
  | append_singleton pre c ih =>
    by_cases hc : c = '\n'
    · subst hc
      simp
    · simp [crlf_cons hc, List.takeWhile_cons, ih]

/-- What stands before the first line feed may get a carriage return at its end. -/
theorem firstLine_crlf (rest : Text) :
    (crlf rest).takeWhile (· != '\n') = rest.takeWhile (· != '\n') ∨
      (crlf rest).takeWhile (· != '\n') = rest.takeWhile (· != '\n') ++ ['\r'] := by
  induction rest with
  | nil => exact Or.inl rfl
  | cons c rest ih =>
    by_cases hc : c = '\n'
    · subst hc
      exact Or.inr rfl
    · simp only [crlf_cons hc, List.takeWhile_cons, bne_iff_ne, ne_eq, hc, not_false_eq_true, if_true, List.cons_append,
        List.cons.injEq, true_and]
      exact ih

theorem has_lineAt_crlf {n n' : Nat} (h : Moves content n n') {s : String} (hs : Text.Breakless s.toList) :
    (Text.lineAt (crlf content) n').has s = (Text.lineAt content n).has s := by
  have hbefore := h.takeBytes_eq
  have hbehind := h.dropBytes_eq
  simp only [Text.lineAt, hbefore, hbehind, lastLine_crlf]
  rcases firstLine_crlf (Text.dropBytes n content) with hfirst | hfirst
  · rw [hfirst]
  · rw [hfirst, ← List.append_assoc, Text.has, Text.occurs_append_cr hs]
    rfl

theorem heavyImport_ignoresReturns (tables : RuleTables) : (heavyImport tables).IgnoresReturns := by
  refine Rule.ignoresReturns_of rfl rfl fun path content hc => ?_
  have himports := valueImports_crlf (p := staticImport) (n := 3) [2] (by decide) (by simp) (by simp)
    (by decide) content
  refine map_eq_of_forall₂ (List.rel_filter (fun r r' hr => ?_) himports) fun r r' hr => ?_
  · have hline {s : String} (hs : Text.Breakless s.toList) := has_lineAt_crlf hr.2 hs
    simp only [hr.1, List.all_cons, List.all_nil]
    rw [hline (s := "dynamic(") (by decide), hline (s := "lazy(") (by decide), hline (s := "import(") (by decide)]
  · rw [hr.1, Spot.atOffset_crlf hr.2]

/-! ## Calls in `try` blocks -/

theorem navigationsInTry_crlf (content : Text) :
    List.Forall₂ (fun x x' => Moves content x.1 x'.1 ∧ x'.2 = x.2) (navigationsInTry content)
      (navigationsInTry (crlf content)) := by
  refine List.rel_flatMap (findAll_crlf (p := tryStart) [] (by decide) content) fun m m' hm => ?_
  have hclose := Text.blockEnd_crlf (hm.last (c := '\x7b') (fun x hx => eq_of_beq hx) (by decide) (by decide)).moves
  generalize Text.blockEnd (crlf content) (m'.stop - 1) = close', Text.blockEnd content (m.stop - 1) = close at hclose
  cases hclose with
  | none => exact .nil
  | some hclose =>
    rename_i close close'
    obtain ⟨closer, _, _, hclose⟩ := hclose
    have hslice := hm.stop.slice_eq hclose.moves
    dsimp only
    rw [hslice]
    refine List.rel_filterMap (fun call call' hcall => ?_)
      (findAll_crlf (p := navigationCall) [] (by decide) (Text.slice content m.stop close))
    exact rel_map (hcall.group_same (n := 1) (by simp) (by decide)) fun c c' hc => ⟨hm.stop.add hcall.start, hc.1⟩

/-- Offsets of the same places are repeated at the same places of a list. -/
theorem firstOfEach_crlf {α : Type} {seen seen' : List Nat} (hseen : List.Forall₂ (Moves content) seen seen')
    {l l' : List (Nat × α)} (h : List.Forall₂ (fun x x' => Moves content x.1 x'.1 ∧ x'.2 = x.2) l l') :
    List.Forall₂ (fun x x' => Moves content x.1 x'.1 ∧ x'.2 = x.2) (firstOfEach seen l) (firstOfEach seen' l') := by
  have hcontains {n n' : Nat} {seen seen' : List Nat} (hn : Moves content n n')
      (hseen : List.Forall₂ (Moves content) seen seen') : seen'.contains n' = seen.contains n := by
    induction hseen with
    | nil => rfl
    | @cons k k' _ _ hk _ ih =>
      have hbeq : (n' == k') = (n == k) := by
        rw [Bool.eq_iff_iff, beq_iff_eq, beq_iff_eq]
        exact (hn.eq_iff hk).symm
      rw [List.contains_cons, List.contains_cons, ih, hbeq]
  induction h generalizing seen seen' with
  | nil => exact .nil
  | @cons x x' l l' hx h ih =>
    obtain ⟨n, a⟩ := x
    obtain ⟨n', a'⟩ := x'
    rw [firstOfEach, firstOfEach, hcontains hx.1 hseen]
    split
    · exact ih hseen
    · exact .cons hx (ih (.cons hx.1 hseen))

theorem redirectInTry_ignoresReturns : redirectInTry.IgnoresReturns := by
  refine Rule.ignoresReturns_of rfl (by decide) fun path content hc => congrArg Spot.sort ?_
  refine map_eq_of_forall₂ (firstOfEach_crlf .nil (navigationsInTry_crlf content)) ?_
  rintro ⟨n, name⟩ ⟨n', name'⟩ ⟨hn, rfl⟩
  exact Spot.atOffset_crlf hn _ _

end Checkup
