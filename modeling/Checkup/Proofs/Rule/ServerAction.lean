import Checkup.Proofs.Rule.Ownership
import Checkup.Proofs.Text.Lines
import Checkup.Rule.Boundary

/-!
# Server functions one behind the other

The check of a server function is looked for up to the next exported function, so what one function does says nothing
about another one. `IsActionBlock` is a text with one exported function, at its start.

* `unauthenticatedSpots_append`: lines in front of an exported function and those from it on are looked at apart.
* `unauthenticatedAction_blocks`: the findings about some blocks are those about each block alone, further down.
-/

namespace Checkup

variable {tables : RuleTables} {ls ls' : List (Nat × Text)} {line first block : Text} {blocks : List Text} {n k : Nat}

/-! ## Findings further down -/

/-- The spot so many lines further down. -/
def Spot.lowerBy (k : Nat) (s : Spot) : Spot := { s with line := s.line + k }

/-- The finding so many lines further down. -/
def Finding.lowerBy (k : Nat) (f : Finding) : Finding :=
  { f with location := { f.location with line := f.location.line + k } }

theorem Spot.lowerBy_add (j k : Nat) (s : Spot) : s.lowerBy (j + k) = (s.lowerBy k).lowerBy j := by
  rw [lowerBy, lowerBy, lowerBy, Nat.add_comm j, ← Nat.add_assoc]

theorem RuleInfo.finding_lowerBy (info : RuleInfo) (path : String) (k : Nat) (s : Spot) :
    info.finding path (s.lowerBy k) = (info.finding path s).lowerBy k := rfl

/-! ## The lines of a function -/

/-- Whether the lines start with an exported function, if there are any. -/
def StartsWithAction (ls : List (Nat × Text)) : Prop := ∀ x ∈ ls.head?, (exportedAction? x.2).isSome

/-- What is looked at behind a line ends in front of the next exported function. -/
theorem takeWhile_take_append (hls : StartsWithAction ls') (k : Nat) (ls : List (Nat × Text)) :
    (((ls ++ ls').take k).map Prod.snd).takeWhile (fun l => (exportedAction? l).isNone) =
      ((ls.take k).map Prod.snd).takeWhile fun l => (exportedAction? l).isNone := by
  induction ls generalizing k with
  | nil =>
    cases ls' with
    | nil => rfl
    | cons x ls' =>
      have hx : (exportedAction? x.2).isNone = false := by simpa using hls x rfl
      cases k with
      | zero => rfl
      | succ k => simp [hx]
  | cons x ls ih =>
    cases k with
    | zero => rfl
    | succ k =>
      rw [List.cons_append, List.take_succ_cons, List.take_succ_cons, List.map_cons, List.map_cons, List.takeWhile_cons,
        List.takeWhile_cons, ih]

/-- **Lines in front of an exported function and those from it on are looked at apart.** -/
theorem unauthenticatedSpots_append (tables : RuleTables) (hls : StartsWithAction ls') :
    unauthenticatedSpots tables (ls ++ ls') = unauthenticatedSpots tables ls ++ unauthenticatedSpots tables ls' := by
  induction ls with
  | nil => rfl
  | cons x ls ih =>
    obtain ⟨n, line⟩ := x
    rw [List.cons_append, unauthenticatedSpots, unauthenticatedSpots]
    cases exportedAction? line with
    | none => exact ih
    | some name =>
      dsimp only
      rw [takeWhile_take_append hls, ih]
      split <;> rfl

theorem unauthenticatedSpots_lowerBy (tables : RuleTables) (k : Nat) (ls : List (Nat × Text)) :
    unauthenticatedSpots tables (lowerBy k ls) = (unauthenticatedSpots tables ls).map (Spot.lowerBy k) := by
  induction ls with
  | nil => rfl
  | cons x ls ih =>
    obtain ⟨n, line⟩ := x
    have hlines : ((lowerBy k ls).take authLookahead).map Prod.snd = (ls.take authLookahead).map Prod.snd := by
      rw [lowerBy, ← List.map_take, List.map_map]
      rfl
    rw [lowerBy_cons, unauthenticatedSpots, unauthenticatedSpots]
    cases exportedAction? line with
    | none => exact ih
    | some name =>
      dsimp only
      rw [hlines, ih]
      have hspot : Spot.inLine (n + k) name.start = fun m h => (Spot.inLine n name.start m h).lowerBy k := rfl
      rw [hspot]
      split <;> rfl

/-! ## Blocks -/

/-- Whether the text has one exported function, on its first line. -/
def IsActionBlock (block : Text) : Prop :=
  ∃ line ls, Text.lines block = line :: ls ∧ (exportedAction? line).isSome ∧ ∀ l ∈ ls, exportedAction? l = none

theorem StartsWithAction.lowerBy (hls : StartsWithAction ls) (k : Nat) : StartsWithAction (lowerBy k ls) := by
  intro x hx
  cases ls with
  | nil => cases hx
  | cons y ls =>
    cases hx
    exact hls y rfl

theorem IsActionBlock.startsWithAction (h : IsActionBlock block) (ls : List (Nat × Text)) :
    StartsWithAction (numberedLines block ++ ls) := by
  obtain ⟨line, ls', hlines, hline, _⟩ := h
  intro x hx
  rw [numberedLines, hlines] at hx
  cases hx
  exact hline

/-- The blocks start with an exported function, and each of them gives its spots at its place. -/
theorem unauthenticatedSpots_flatten (tables : RuleTables) (hblocks : ∀ block ∈ blocks, IsActionBlock block)
    (hbreaks : ∀ block ∈ blocks.dropLast, block.EndsLine) :
    StartsWithAction (numberedLines blocks.flatten) ∧
      unauthenticatedSpots tables (numberedLines blocks.flatten) = blocks.zipIdx.flatMap fun (block, i) =>
        (unauthenticatedSpots tables (numberedLines block)).map
          (Spot.lowerBy (Text.lines (blocks.take i).flatten).length) := by
  induction blocks with
  | nil => exact ⟨fun x hx => absurd hx (by simp [numberedLines, Text.lines, Text.linesFrom]), rfl⟩
  | cons block blocks ih =>
    obtain ⟨hblock, hblocks⟩ := List.forall_mem_cons.mp hblocks
    have hzero : Spot.lowerBy 0 = id := rfl
    have hfirst : (Text.lines (List.flatten ([] : List Text))).length = 0 := rfl
    by_cases hlast : blocks = []
    · have hstarts := hblock.startsWithAction []
      rw [List.append_nil] at hstarts
      simpa [hlast, show (Text.lines []).length = 0 from rfl, hzero] using hstarts
    · rw [List.dropLast_cons_of_ne_nil hlast] at hbreaks
      obtain ⟨hbreak, hbreaks⟩ := List.forall_mem_cons.mp hbreaks
      obtain ⟨hstarts, hspots⟩ := ih hblocks hbreaks
      rw [List.flatten_cons, numberedLines_append hbreak]
      refine ⟨hblock.startsWithAction _, ?_⟩
      rw [unauthenticatedSpots_append tables (hstarts.lowerBy _), unauthenticatedSpots_lowerBy, hspots,
        List.zipIdx_cons, List.flatMap_cons, List.zipIdx_succ, List.flatMap_map, List.map_flatMap]
      dsimp only
      rw [List.take_zero, hfirst, hzero, List.map_id]
      congr 2
      funext x
      simp only [List.map_map, List.take_succ_cons, List.flatten_cons, Text.lines_append hbreak, List.length_append]
      exact List.map_congr_left fun spot _ => (spot.lowerBy_add _ _).symm

/-! ## Files of server functions -/

/-- A file whose first line is the directive is a module of server functions, and the line itself exports none. -/
theorem directive_append (tables : RuleTables) (hfirst : Text.lines first = ["\"use server\";".toList])
    (hbreak : first.EndsLine) (t : Text) :
    directive (first ++ t) = some .server ∧
      unauthenticatedSpots tables (numberedLines (first ++ t)) =
        (unauthenticatedSpots tables (numberedLines t)).map (Spot.lowerBy 1) := by
  have hlines : numberedLines (first ++ t) = (1, "\"use server\";".toList) :: lowerBy 1 (numberedLines t) := by
    rw [numberedLines_append hbreak, numberedLines, hfirst]
    rfl
  have haction : exportedAction? "\"use server\";".toList = none := by decide
  rw [hlines, unauthenticatedSpots, haction]
  refine ⟨?_, unauthenticatedSpots_lowerBy tables 1 _⟩
  rw [directive, findDirective, hlines]
  rfl

/-- **Server functions one behind the other.** The findings about a file of blocks with one exported function each are
those about each block alone, as many lines further down as there are in the blocks before it. -/
theorem unauthenticatedAction_blocks (tables : RuleTables) (path : String)
    (hfirst : Text.lines first = ["\"use server\";".toList]) (hbreak : first.EndsLine)
    (hblocks : ∀ block ∈ blocks, IsActionBlock block) (hbreaks : ∀ block ∈ blocks.dropLast, block.EndsLine) :
    ∃ found : Text → List Finding,
      (∀ block ∈ blocks, (unauthenticatedAction tables).detect path (first ++ block) = .ok (found block)) ∧
      (unauthenticatedAction tables).detect path (first ++ blocks.flatten) =
        .ok (blocks.zipIdx.flatMap fun (block, i) =>
          (found block).map (Finding.lowerBy (Text.lines (blocks.take i).flatten).length)) := by
  let info := unauthenticatedActionInfo
  have hdetect (t : Text) : (unauthenticatedAction tables).detect path (first ++ t) =
      .ok ((unauthenticatedSpots tables (numberedLines t)).map fun s => info.finding path (s.lowerBy 1)) := by
    have hspots : (unauthenticatedAction tables).ReportsSpots fun _ content =>
        if directive content != some .server then [] else unauthenticatedSpots tables (numberedLines content) := rfl
    obtain ⟨hdirective, heq⟩ := directive_append tables hfirst hbreak t
    rw [hspots.detect_eq, hdirective, heq]
    simp [Rule.hasClues, unauthenticatedAction, RuleInfo.rule, info, Function.comp_def]
  refine ⟨_, fun block _ => hdetect block, ?_⟩
  rw [hdetect, (unauthenticatedSpots_flatten tables hblocks hbreaks).2, List.map_flatMap]
  congr 1
  refine List.flatMap_congr fun x _ => ?_
  simp only [List.map_map]
  refine List.map_congr_left fun spot _ => ?_
  simp only [Function.comp, ← RuleInfo.finding_lowerBy, ← Spot.lowerBy_add, Nat.add_comm]

/-- Of three functions that change data only the one in the middle does not check the caller, and it is reported, though
the check of the last one is on the second line behind it. -/
theorem unauthenticatedAction_blocks_posts :
    let first := "\"use server\";\n".toList
    let edit := "export async function editPost(id) \x7b\n  await auth();\n\x7d\n".toList
    let create := "export const createPost = async () => save();\n".toList
    let delete := "export async function deletePost(id) \x7b\n  await auth();\n\x7d\n".toList
    (∀ block ∈ [edit, create, delete], IsActionBlock block) ∧ ∃ findings,
      (unauthenticatedAction .standard).detect "a.ts" (first ++ [edit, create, delete].flatten) = .ok findings ∧
      findings.map (fun f => f.location) = [⟨"a.ts", 5, 14⟩] := by
  intro first edit create delete
  have hblocks : ∀ block ∈ [edit, create, delete], IsActionBlock block :=
    List.forall_mem_cons.mpr ⟨⟨_, _, rfl, by decide +kernel, by decide +kernel⟩, List.forall_mem_cons.mpr
      ⟨⟨_, _, rfl, by decide +kernel, by decide +kernel⟩, List.forall_mem_singleton.mpr
        ⟨_, _, rfl, by decide +kernel, by decide +kernel⟩⟩⟩
  obtain ⟨found, halone, hfile⟩ := unauthenticatedAction_blocks .standard "a.ts" (show Text.lines first = _ from rfl)
    (by decide) hblocks (show ∀ block ∈ [edit, create, delete].dropLast, Text.EndsLine block by decide)
  have hfound (block : Text) (hblock : block ∈ [edit, create, delete]) (locations : List Location)
      (h : ((unauthenticatedAction .standard).detect "a.ts" (first ++ block)).map (List.map fun f => f.location) =
        .ok locations) : (found block).map (fun f => f.location) = locations := by
    rw [halone block hblock] at h
    exact Except.ok.inj h
  have hedit : found edit = [] := List.map_eq_nil_iff.mp (hfound edit (by simp) [] (by decide +kernel))
  have hdelete : found delete = [] := List.map_eq_nil_iff.mp (hfound delete (by simp) [] (by decide +kernel))
  have hcreate := hfound create (by simp) [⟨"a.ts", 2, 14⟩] (by decide +kernel)
  refine ⟨hblocks, _, hfile, ?_⟩
  have hlines : (Text.lines edit).length = 3 := by decide
  calc _ = ((found create).map fun f => f.location).map fun l => { l with line := l.line + 3 } := by
        simp [hedit, hdelete, hlines, Function.comp_def, Finding.lowerBy]
    _ = _ := by rw [hcreate]; rfl

end Checkup
