import Checkup.Proofs.Location.Basic
import Checkup.Proofs.Project.Path
import Checkup.Proofs.Source.BraceReach
import Checkup.Proofs.Text.Bracket
import Checkup.Rule.Composition

/-!
# Components that enclose nothing

A line that declares a component announces a scope, which opens with the next brace that leads deeper. So a declaration
without a body in braces is taken for the enclosing component if the code behind it opens a brace soon enough.

* `declaration?`: the component that a line declares. `nestedSpots_cons` says what each line gives and which tracker it
  leaves (`afterLine`), and `mem_nestedComponent` what is reported for a file.
* `NamesAre`: what holds of the names of all scopes; lines keep it if it holds of the names that they declare.
* `marks_afterLines`: the scopes behind lines are those from before and those that the lines announce, each on its own.
* `Declaration.Spans`: whether the scope of a declaration is open at a later one, which the braces between them decide
  (`ScopeReaches`); `SomeSpans`: whether that of some declaration among lines is.
* `innermost_eq_some_iff_spans`: which component is named as the one around another.
* `nestedComponent_encloses`: when a declaration without a body in braces is named as the enclosing component.
-/

namespace Checkup

open Pattern BraceScope

variable {line tag : Text} {n depth : Nat} {m : Match} {s : BraceScope Text}
  {ls : List (Nat × Text)} {spot : Spot}

/-! ## Declarations -/

/-- A component that a line declares. -/
structure Declaration where
  name : Capture
  /-- the line up to the end of the parameters -/
  head : Text
  /-- the rest of the line -/
  tail : Text
  /-- what follows the characters that make the line a declaration -/
  behind : Text
  deriving DecidableEq

/-- The component that a line declares. -/
def declaration? (line : Text) : Option Declaration := do
  let m ← componentDeclaration.find line
  let name ← (m.group? 1).or (m.group? 2)
  let cut := afterParameters line m
  return ⟨name, Text.takeBytes cut line, Text.dropBytes cut line, Text.dropBytes m.stop line⟩

theorem declaration?_eq_some {d : Declaration} (hd : declaration? line = some d) :
    ∃ m name, componentDeclaration.find line = some m ∧ (m.group? 1).or (m.group? 2) = some name ∧
      let cut := afterParameters line m
      d = ⟨name, Text.takeBytes cut line, Text.dropBytes cut line, Text.dropBytes m.stop line⟩ := by
  simp only [declaration?, Option.bind_eq_bind, Option.bind_eq_some_iff, Option.pure_def, Option.some.injEq] at hd
  obtain ⟨m, hm, name, hname, rfl⟩ := hd
  exact ⟨m, name, hm, hname, rfl⟩

/-- The names that lines declare. -/
def declaredNames (ls : List (Nat × Text)) : List Text :=
  ls.filterMap fun x => (declaration? x.2).map fun d => d.name.text

theorem declaredNames_append (ls ls' : List (Nat × Text)) :
    declaredNames (ls ++ ls') = declaredNames ls ++ declaredNames ls' := List.filterMap_append

theorem mem_declaredNames :
    tag ∈ declaredNames ls ↔ ∃ x ∈ ls, ∃ d, declaration? x.2 = some d ∧ d.name.text = tag := by
  simp only [declaredNames, List.mem_filterMap, Option.map_eq_some_iff]

/-- The pieces in which a line is fed. -/
def linePieces (line : Text) : List Text :=
  match declaration? line with
  | none => [line]
  | some d => [d.head, d.tail]

/-- The tracker behind a line. -/
def afterLine (s : BraceScope Text) (line : Text) : BraceScope Text :=
  match declaration? line with
  | none => s.feed line
  | some d => ((s.feed d.head).announce d.name.text).feed d.tail

/-- The tracker behind lines. -/
def afterLines (s : BraceScope Text) (ls : List (Nat × Text)) : BraceScope Text :=
  ls.foldl (fun s x => afterLine s x.2) s

/-- The component that encloses the one that a line declares. -/
def enclosing? (s : BraceScope Text) (line : Text) : Option (Capture × Text) := do
  let d ← declaration? line
  return (d.name, ← (s.feed d.head).innermost)

theorem enclosing?_eq_some_iff {x : Capture × Text} : enclosing? s line = some x ↔
    ∃ d, declaration? line = some d ∧ d.name = x.1 ∧ (s.feed d.head).innermost = some x.2 := by
  simp only [enclosing?, Option.bind_eq_bind, Option.bind_eq_some_iff, Option.pure_def, Option.some.injEq]
  constructor
  · rintro ⟨d, hd, outer, houter, rfl⟩
    exact ⟨d, hd, rfl, houter⟩
  · rintro ⟨d, hd, hname, houter⟩
    exact ⟨d, hd, x.2, houter, by rw [hname]⟩

/-- The spot for a component inside another one. -/
def nestedSpot (n : Nat) (name : Capture) (outer : Text) : Spot :=
  Spot.inLine n name.start s!"`{String.ofList name.text}` is declared inside `{String.ofList outer}`"
    "Move it to module scope and pass what it needs as props"

theorem nestedSpots_cons (s : BraceScope Text) (n : Nat) (line : Text) (ls : List (Nat × Text)) :
    nestedSpots s ((n, line) :: ls) =
      (enclosing? s line).toList.map (fun x => nestedSpot n x.1 x.2) ++ nestedSpots (afterLine s line) ls := by
  rw [nestedSpots, enclosing?, afterLine, declaration?]
  cases componentDeclaration.find line with
  | none => rfl
  | some m =>
    dsimp only [Option.bind_eq_bind, Option.bind_some]
    cases (m.group? 1).or (m.group? 2) with
    | none => rfl
    | some name =>
      dsimp only [Option.bind_some, Option.pure_def]
      cases (s.feed (Text.takeBytes (afterParameters line m) line)).innermost <;> rfl

/-! ## What follows a declaration -/

/-- Behind the name of a function that a line declares there is nothing but blanks and a bracket in the match. -/
theorem componentDeclaration_function {pre w post : Text} {g : Marks} {func : Capture}
    (h : componentDeclaration.Takes pre w post [] g) (hfunc : (captures g).lookup 1 = some func) :
    ∃ u v, w = u ++ v ∧ func.stop = Text.byteSize (pre ++ u) ∧ '\x7b' ∉ v := by
  obtain ⟨u₁, _, g₁, rfl, h₁, u₂, _, g₂, rfl, h₂, u₃, _, g₃, rfl, h₃, h⟩ := h
  obtain rfl := groupless_takes rfl h₁
  obtain rfl := groupless_takes rfl h₂
  obtain rfl := groupless_takes rfl h₃
  rcases h with h | h
  · obtain ⟨u₄, _, g₄, rfl, h₄, u₅, _, g₅, rfl, h₅, u₆, v, g₆, rfl, ⟨g₇, h₇, rfl⟩, h⟩ := h
    obtain rfl := groupless_takes rfl h₄
    obtain rfl := groupless_takes rfl h₅
    obtain rfl := groupless_takes rfl h₇
    have hv := within_takes (s := ['\x7b']) (by decide) h
    obtain rfl := groupless_takes rfl h
    refine ⟨u₁ ++ (u₂ ++ (u₃ ++ (u₄ ++ (u₅ ++ u₆)))), v, by simp only [List.append_assoc], ?_,
      fun hx => hv _ hx (by decide)⟩
    have hcapture : Capture.between _ _ = func := Option.some.inj hfunc
    rw [Capture.between_behind] at hcapture
    simp only [← hcapture, Capture.stop, Text.byteSize_append, Nat.add_assoc]
  · -- the other kind of declaration has no group with the number
    have hnone : (captures g).lookup 1 = none := lookup_captures_eq_none (by decide) h
    rw [hnone] at hfunc
    cases hfunc

/-- The parameters of a function stand behind its name. -/
theorem le_afterParameters {func : Capture} (hfunc : m.group? 1 = some func) : func.stop ≤ afterParameters line m := by
  rw [afterParameters, hfunc]
  dsimp only
  cases hclose : (do
      let opening ← Text.findAfter line func.stop '('
      Text.blockEnd line opening) with
  | none => exact Nat.le_refl _
  | some close =>
    obtain ⟨opening, hopening, hend⟩ := Option.bind_eq_some_iff.mp hclose
    have hle := Text.le_of_findAfter hopening
    have hle' := Text.le_of_blockEnd hend
    rw [Option.map_some, Option.getD_some]
    omega

/-- If the match is followed by no brace there is none behind the parameters. -/
theorem not_mem_tail {d : Declaration} (hd : declaration? line = some d) (h : '\x7b' ∉ d.behind) : '\x7b' ∉ d.tail := by
  obtain ⟨m, name, hm, _, rfl⟩ := declaration?_eq_some hd
  dsimp only at h ⊢
  obtain ⟨pre, w, post, g, hof⟩ := find_of hm
  cases hfunc : m.group? 1 with
  | none =>
    rw [afterParameters, hfunc]
    exact h
  | some func =>
    have hlookup : (captures g).lookup 1 = some func := by
      rw [hof.eq] at hfunc
      exact hfunc
    obtain ⟨u, v, rfl, hstop, hv⟩ := componentDeclaration_function hof.takes hlookup
    have hline : line = (pre ++ u) ++ (v ++ post) := by simpa using hof.text_eq
    have hbehind : Text.dropBytes m.stop line = post := by
      rw [hof.stop_eq, hof.text_eq, ← List.append_assoc pre (u ++ v) post, Text.dropBytes_append]
    intro hmem
    -- the parameters end behind the name, and the rest of the match has no brace
    have hmem := (Text.dropBytes_suffix (le_afterParameters hfunc) line).subset hmem
    rw [hstop, hline, Text.dropBytes_append] at hmem
    rcases List.mem_append.mp hmem with hmem | hmem
    · exact hv hmem
    · exact h (hbehind ▸ hmem)

/-- Names have no quote in them. -/
theorem quote_not_mem_name {d : Declaration} (hd : declaration? line = some d) : '\x60' ∉ d.name.text := by
  obtain ⟨m, name, hm, hname, rfl⟩ := declaration?_eq_some hd
  obtain ⟨pre, w, post, g, hof⟩ := find_of hm
  intro hmem
  rcases Option.or_eq_some_iff.mp hname with h | ⟨_, h⟩
  · exact (hof.group_text (s := ['\x60']) h (by decide)).2 _ hmem List.mem_cons_self
  · exact (hof.group_text (s := ['\x60']) h (by decide)).2 _ hmem List.mem_cons_self

/-! ## The enclosing component of a finding -/

/-- A message tells which component it is about, and which one it names as the enclosing one. -/
theorem message_injective {name other : String} {outer around : Text}
    (houter : '\x60' ∉ outer) (haround : '\x60' ∉ around)
    (h : s!"`{name}` is declared inside `{String.ofList outer}`" =
      s!"`{other}` is declared inside `{String.ofList around}`") :
    name = other ∧ outer = around := by
  have htext (name : String) (outer : Text) : s!"`{name}` is declared inside `{String.ofList outer}`".toList =
      ("`".toList ++ name.toList ++ "` is declared inside ".toList ++ ['\x60'] ++ outer) ++ ['\x60'] := by
    simp [toString]
  have last (name : String) {outer : Text} (houter : '\x60' ∉ outer) :
      Text.lastPiece (· == '\x60') s!"`{name}` is declared inside `{String.ofList outer}`".toList.dropLast = outer := by
    rw [htext, List.dropLast_concat]
    refine Text.lastPiece_append (Or.inr ⟨_, '\x60', rfl, rfl⟩) fun x hx => ?_
    exact beq_eq_false_iff_ne.mpr fun e => houter (e ▸ hx)
  have hlast := congrArg (fun t : String => Text.lastPiece (· == '\x60') t.toList.dropLast) h
  rw [last name houter, last other haround] at hlast
  subst hlast
  have hname := congrArg String.toList h
  rw [htext, htext] at hname
  simp only [List.append_cancel_right_eq, List.append_cancel_left_eq] at hname
  exact ⟨String.toList_inj.mp hname, rfl⟩

theorem depth_afterLine (s : BraceScope Text) (line : Text) : (afterLine s line).depth = braceDepth s.depth line := by
  rw [afterLine]
  cases hd : declaration? line with
  | none => exact depth_feed s line
  | some d =>
    have hline : d.head ++ d.tail = line := by
      obtain ⟨m, name, _, _, rfl⟩ := declaration?_eq_some hd
      exact Text.takeBytes_append_dropBytes _ line
    dsimp only
    rw [depth_feed, depth_announce, depth_feed, ← braceDepth_append, hline]

theorem depth_afterLines (ls : List (Nat × Text)) (s : BraceScope Text) :
    (afterLines s ls).depth = braceDepth s.depth (ls.map Prod.snd).flatten := by
  induction ls generalizing s with
  | nil => rfl
  | cons x ls ih =>
    rw [afterLines, List.foldl_cons, ← afterLines, ih, depth_afterLine, ← braceDepth_append, List.map_cons,
      List.flatten_cons]

/-! ## Names of scopes -/

/-- Whether something holds of the names of all scopes. -/
def NamesAre (P : Text → Prop) (s : BraceScope Text) : Prop := ∀ m ∈ s.marks, P m.tag

namespace NamesAre

variable {P : Text → Prop}

theorem start : NamesAre P start := fun _ hm => absurd hm List.not_mem_nil

theorem feed (h : NamesAre P s) (t : Text) : NamesAre P (s.feed t) := by
  intro m hm
  obtain ⟨m', hm', htag⟩ := tag_of_mem_feed hm
  exact htag ▸ h m' hm'

theorem announce (h : NamesAre P s) {name : Text} (hname : P name) : NamesAre P (s.announce name) := by
  intro m hm
  rcases mem_announce.mp hm with hm | rfl
  · exact h m hm
  · exact hname

theorem afterLine (h : NamesAre P s) (hd : ∀ d ∈ declaration? line, P d.name.text) : NamesAre P (afterLine s line) := by
  rw [Checkup.afterLine]
  cases hdecl : declaration? line with
  | none => exact h.feed line
  | some d => exact ((h.feed d.head).announce (hd d hdecl)).feed d.tail

theorem afterLines (h : NamesAre P s) (hnames : ∀ name ∈ declaredNames ls, P name) : NamesAre P (afterLines s ls) := by
  induction ls generalizing s with
  | nil => exact h
  | cons x ls ih =>
    refine ih (h.afterLine fun d hd => hnames _ (mem_declaredNames.mpr ⟨x, List.mem_cons_self, d, hd, rfl⟩))
      fun name hmem => ?_
    obtain ⟨y, hy, hd⟩ := mem_declaredNames.mp hmem
    exact hnames name (mem_declaredNames.mpr ⟨y, List.mem_cons_of_mem _ hy, hd⟩)

theorem feeds (h : NamesAre P s) (ts : List Text) : NamesAre P (ts.foldl BraceScope.feed s) := by
  induction ts generalizing s with
  | nil => exact h
  | cons t ts ih => exact ih (h.feed t)

theorem innermost (h : NamesAre P s) {outer : Text} (houter : s.innermost = some outer) : P outer := by
  obtain ⟨m, hm, htag⟩ := exists_mem_of_innermost houter
  exact htag ▸ h m hm

end NamesAre

/-- No scope has a name with a quote in it. -/
theorem quoteless_afterLines (ls : List (Nat × Text)) :
    NamesAre (fun name => '\x60' ∉ name) (afterLines start ls) := by
  refine NamesAre.start.afterLines fun name hname => ?_
  obtain ⟨x, _, d, hd, rfl⟩ := mem_declaredNames.mp hname
  exact quote_not_mem_name hd

/-! ## The scopes behind lines -/

/-- The pieces in which lines are fed, with one more piece behind them. -/
def piecesOf (ls : List (Nat × Text)) (last : Text) : List Text := (ls.flatMap fun x => linePieces x.2) ++ [last]

theorem piecesOf_cons (x : Nat × Text) (ls : List (Nat × Text)) (last : Text) :
    piecesOf (x :: ls) last = linePieces x.2 ++ piecesOf ls last := by
  rw [piecesOf, List.flatMap_cons, List.append_assoc, ← piecesOf]

/-- Whether the scope of a component that a line declares at a depth is open where a later line declares another one. -/
def Declaration.Spans (depth : Nat) (d : Declaration) (between : List (Nat × Text)) (d' : Declaration) : Prop :=
  ScopeReaches depth graceLines depth (d.tail :: piecesOf between d'.head)

/-- Whether the scope of a component that lines declare, read from a depth on, is open where a later line declares
another one. -/
def SomeSpans (depth : Nat) (ls : List (Nat × Text)) (d' : Declaration) : Prop :=
  ∃ front x back d, ls = front ++ x :: back ∧ declaration? x.2 = some d ∧
    d.Spans (braceDepth depth ((front.map Prod.snd).flatten ++ d.head)) back d'

theorem someSpans_cons {x : Nat × Text} {d' : Declaration} : SomeSpans depth (x :: ls) d' ↔
    (∃ d, declaration? x.2 = some d ∧ d.Spans (braceDepth depth d.head) ls d') ∨
      SomeSpans (braceDepth depth x.2) ls d' := by
  constructor
  · rintro ⟨front, y, back, d, hls, hd, hspans⟩
    rcases List.cons_eq_append_iff.mp hls with ⟨rfl, hback⟩ | ⟨front, rfl, rfl⟩
    · obtain ⟨rfl, rfl⟩ := List.cons.inj hback
      exact Or.inl ⟨d, hd, hspans⟩
    · rw [List.map_cons, List.flatten_cons, List.append_assoc, braceDepth_append] at hspans
      exact Or.inr ⟨front, y, back, d, rfl, hd, hspans⟩
  · rintro (⟨d, hd, hspans⟩ | ⟨front, y, back, d, rfl, hd, hspans⟩)
    · exact ⟨[], x, ls, d, rfl, hd, hspans⟩
    · refine ⟨x :: front, y, back, d, rfl, hd, ?_⟩
      rwa [List.map_cons, List.flatten_cons, List.append_assoc, braceDepth_append]

/-- The scopes that lines announce, from a depth on, behind the lines and one more piece of text. -/
def announcedMarks (last : Text) : Nat → List (Nat × Text) → List (Mark Text)
  | _, [] => []
  | depth, (_, line) :: ls =>
    (match declaration? line with
      | none => []
      | some d =>
        let level := braceDepth depth d.head
        ((d.tail :: piecesOf ls last).foldl feed ⟨level, [⟨level, false, graceLines, d.name.text⟩]⟩).marks) ++
      announcedMarks last (braceDepth depth line) ls

/-- **The scopes behind lines** are those from before and those that the lines announce. -/
theorem marks_afterLines (last : Text) (ls : List (Nat × Text)) (s : BraceScope Text) :
    ((afterLines s ls).feed last).marks = ((piecesOf ls last).foldl feed s).marks ++
      announcedMarks last s.depth ls := by
  induction ls generalizing s with
  | nil => exact (List.append_nil _).symm
  | cons x ls ih =>
    obtain ⟨n, line⟩ := x
    rw [afterLines, List.foldl_cons, ← afterLines, ih, depth_afterLine, announcedMarks, ← List.append_assoc]
    congr 1
    dsimp only
    rw [piecesOf_cons, afterLine, linePieces]
    cases hd : declaration? line with
    | none => exact (List.append_nil _).symm
    | some d =>
      have hhead : (s.feed d.head).announce d.name.text = ⟨braceDepth s.depth d.head,
          (s.feed d.head).marks ++ [⟨braceDepth s.depth d.head, false, graceLines, d.name.text⟩]⟩ := by
        rw [BraceScope.announce, depth_feed]
      have hsame : (⟨braceDepth s.depth d.head, (s.feed d.head).marks⟩ : BraceScope Text) = s.feed d.head := by
        rw [← depth_feed]
      dsimp only
      rw [hhead, List.cons_append, List.cons_append, List.nil_append, List.foldl_cons, ← List.foldl_cons (f := feed),
        marks_feeds_append, hsame, List.foldl_cons, List.foldl_cons]

/-- A tracker that knows one scope more than another one, as the last one. -/
theorem innermost_append (marks marks' : List (Mark Text)) (depth : Nat) :
    (⟨depth, marks ++ marks'⟩ : BraceScope Text).innermost =
      (⟨depth, marks'⟩ : BraceScope Text).innermost.or (⟨depth, marks⟩ : BraceScope Text).innermost := by
  simp only [innermost, List.reverse_append, List.find?_append]
  cases marks'.reverse.find? Mark.isOpen <;> rfl

theorem isInside_append (marks marks' : List (Mark Text)) (depth : Nat) :
    (⟨depth, marks ++ marks'⟩ : BraceScope Text).isInside = true ↔
      (⟨depth, marks⟩ : BraceScope Text).isInside = true ∨ (⟨depth, marks'⟩ : BraceScope Text).isInside = true := by
  simp [isInside]

theorem innermost_eq_none {s : BraceScope Text} : s.innermost = none ↔ s.isInside = false := by
  simp [innermost, isInside, List.find?_eq_none]

theorem mem_announcedMarks {last : Text} {depth : Nat} {m : Mark Text} (hm : m ∈ announcedMarks last depth ls) :
    m.tag ∈ declaredNames ls := by
  induction ls generalizing depth with
  | nil => cases hm
  | cons x ls ih =>
    obtain ⟨n, line⟩ := x
    rw [announcedMarks] at hm
    rcases List.mem_append.mp hm with hm | hm
    · cases hd : declaration? line with
      | none =>
        rw [hd] at hm
        cases hm
      | some d =>
        rw [hd] at hm
        have hone : NamesAre (· = d.name.text) (⟨braceDepth depth d.head,
            [⟨braceDepth depth d.head, false, graceLines, d.name.text⟩]⟩ : BraceScope Text) := by
          intro m hm
          rw [List.mem_singleton.mp hm]
        refine mem_declaredNames.mpr ⟨_, List.mem_cons_self, d, hd, ?_⟩
        exact (hone.feeds _ m hm).symm
    · obtain ⟨y, hy, hd⟩ := mem_declaredNames.mp (ih hm)
      exact mem_declaredNames.mpr ⟨y, List.mem_cons_of_mem _ hy, hd⟩

/-- A tracker that knows the scope of a component alone. -/
theorem isInside_iff_spans (tag : Text) {d d' : Declaration} {depth : Nat} :
    ((d.tail :: piecesOf ls d'.head).foldl feed
        (⟨depth, [⟨depth, false, graceLines, tag⟩]⟩ : BraceScope Text)).isInside = true ↔
      d.Spans depth ls d' :=
  isInside_feeds (Nat.le_refl _) (Nat.zero_lt_succ 2)

/-- **Whether a scope that lines announce is open** behind them and the start of a line that declares a component. -/
theorem isInside_announcedMarks {d' : Declaration} (depth' : Nat) :
    (⟨depth', announcedMarks d'.head depth ls⟩ : BraceScope Text).isInside = true ↔ SomeSpans depth ls d' := by
  induction ls generalizing depth with
  | nil => simp [isInside, announcedMarks, SomeSpans]
  | cons x ls ih =>
    rw [announcedMarks, isInside_append, ih, someSpans_cons]
    refine or_congr_left ?_
    cases declaration? x.2 with
    | none => simp [isInside]
    | some d =>
      simp only [Option.some.injEq, exists_eq_left']
      exact isInside_iff_spans _

/-- **Which component encloses another one.** A component that a line declares, and no line between, is named as the one
around a later component just if its scope is open there and no scope that was announced since. -/
theorem innermost_eq_some_iff_spans {d : Declaration} (d' : Declaration) (hs : NamesAre (· ≠ d.name.text) s)
    (honly : d.name.text ∉ declaredNames ls) :
    ((afterLines ((s.announce d.name.text).feed d.tail) ls).feed d'.head).innermost = some d.name.text ↔
      d.Spans s.depth ls d' ∧ ¬ SomeSpans (braceDepth s.depth d.tail) ls d' := by
  have hmarks : ((afterLines ((s.announce d.name.text).feed d.tail) ls).feed d'.head).marks =
      (((d.tail :: piecesOf ls d'.head).foldl feed s).marks ++ ((d.tail :: piecesOf ls d'.head).foldl feed
        ⟨s.depth, [⟨s.depth, false, graceLines, d.name.text⟩]⟩).marks) ++
        announcedMarks d'.head (braceDepth s.depth d.tail) ls := by
    rw [marks_afterLines, depth_feed, depth_announce, ← List.foldl_cons (f := feed), ← marks_feeds_append]
    rfl
  have hinner (s : BraceScope Text) : s.innermost = (⟨0, s.marks⟩ : BraceScope Text).innermost := rfl
  rw [hinner, hmarks, innermost_append, innermost_append, ← isInside_announcedMarks 0, Bool.not_eq_true,
    ← innermost_eq_none, ← isInside_iff_spans d.name.text, ← hinner, ← hinner]
  -- the later scopes and those from before have other names
  have hlater : (⟨0, announcedMarks d'.head (braceDepth s.depth d.tail) ls⟩ : BraceScope Text).innermost ≠
      some d.name.text := fun hsome => by
    obtain ⟨m, hm, htag⟩ := exists_mem_of_innermost hsome
    exact honly (htag ▸ mem_announcedMarks hm)
  have hbefore : ((d.tail :: piecesOf ls d'.head).foldl feed s).innermost ≠ some d.name.text :=
    fun hsome => (hs.feeds _).innermost hsome rfl
  have hown : NamesAre (· = d.name.text) ((d.tail :: piecesOf ls d'.head).foldl feed
      ⟨s.depth, [⟨s.depth, false, graceLines, d.name.text⟩]⟩) :=
    NamesAre.feeds (fun m hm => by rw [List.mem_singleton.mp hm]) _
  generalize (⟨0, announcedMarks d'.head (braceDepth s.depth d.tail) ls⟩ : BraceScope Text).innermost =
    later at hlater ⊢
  generalize (d.tail :: piecesOf ls d'.head).foldl feed (⟨s.depth, [⟨s.depth, false, graceLines, d.name.text⟩]⟩ :
    BraceScope Text) = own at hown ⊢
  cases later with
  | some outer => simpa using hlater
  | none =>
    rw [Option.none_or, and_iff_left rfl]
    cases hinside : own.innermost with
    | none => simpa [innermost_eq_none.mp hinside] using hbefore
    | some outer =>
      have hopen : own.isInside = true := by
        rw [← Bool.not_eq_false, ← innermost_eq_none, hinside]
        exact Option.some_ne_none _
      simp [hopen, hown.innermost hinside]

theorem namesAre_of_not_mem (h : tag ∉ declaredNames ls) : NamesAre (· ≠ tag) (afterLines start ls) :=
  NamesAre.start.afterLines fun _ hname heq => h (heq ▸ hname)

/-- If no brace follows the declaration on its line, what follows there is one piece less to wait for. -/
theorem innermost_behind_line {before between : List (Nat × Text)} {d : Declaration} (hd : declaration? line = some d)
    (hbehind : '\x7b' ∉ d.behind) (hbefore : d.name.text ∉ declaredNames before)
    (hbetween : d.name.text ∉ declaredNames between) (n : Nat) (d' : Declaration) :
    let depth := braceDepth 0 ((before.map Prod.snd).flatten ++ d.head)
    ((afterLines start (before ++ (n, line) :: between)).feed d'.head).innermost = some d.name.text ↔
      ScopeReaches depth 2 (braceDepth depth d.tail) (piecesOf between d'.head) ∧
        ¬ SomeSpans (braceDepth depth d.tail) between d' := by
  intro depth
  have hdepth : ((afterLines start before).feed d.head).depth = depth := by
    rw [depth_feed, depth_afterLines, ← braceDepth_append]
    rfl
  have hline : afterLines start (before ++ (n, line) :: between) =
      afterLines ((((afterLines start before).feed d.head).announce d.name.text).feed d.tail) between := by
    rw [afterLines, List.foldl_append, List.foldl_cons, ← afterLines, ← afterLines, afterLine, hd]
  have htail := staysWithin_of_not_mem (not_mem_tail hd hbehind) depth
  rw [hline, innermost_eq_some_iff_spans d' ((namesAre_of_not_mem hbefore).feed d.head) hbetween, hdepth,
    Declaration.Spans, graceLines, scopeReaches_cons_of_stays htail]

/-! ## Findings -/

/-- The spots are about the components that lines declare inside other ones. -/
theorem mem_nestedSpots : spot ∈ nestedSpots s ls ↔
    ∃ front number line back x, ls = front ++ (number, line) :: back ∧ enclosing? (afterLines s front) line = some x ∧
      spot = nestedSpot number x.1 x.2 := by
  induction ls generalizing s with
  | nil => simp [nestedSpots]
  | cons y ls ih =>
    obtain ⟨n, line⟩ := y
    rw [nestedSpots_cons, List.mem_append, ih, List.mem_map]
    constructor
    · rintro (⟨x, hx, rfl⟩ | ⟨front, number, line, back, x, rfl, hx, rfl⟩)
      · exact ⟨[], n, line, ls, x, rfl, Option.mem_toList.mp hx, rfl⟩
      · exact ⟨(n, _) :: front, number, line, back, x, rfl, hx, rfl⟩
    · rintro ⟨front, number, line', back, x, hls, hx, rfl⟩
      rcases List.cons_eq_append_iff.mp hls with ⟨rfl, hback⟩ | ⟨front, rfl, rfl⟩
      · obtain ⟨h, rfl⟩ := List.cons.inj hback
        obtain ⟨rfl, rfl⟩ := Prod.mk.inj h
        exact Or.inl ⟨x, Option.mem_toList.mpr hx, rfl⟩
      · exact Or.inr ⟨front, number, line', back, x, rfl, hx, rfl⟩

/-- What is reported for a file: which components lines declare inside other ones. -/
theorem mem_nestedComponent (path : String) (content : Text) :
    ∃ findings, nestedComponent.detect path content = .ok findings ∧ ∀ (number : Nat) (message : String),
      (∃ f ∈ findings, f.location.line = number ∧ f.message = message) ↔
        ∃ front line back x, numberedLines content = front ++ (number, line) :: back ∧
          enclosing? (afterLines start front) line = some x ∧
          message = s!"`{String.ofList x.1.text}` is declared inside `{String.ofList x.2}`" := by
  have hspots : nestedComponent.ReportsSpots fun _ content => nestedSpots .start (numberedLines content) := rfl
  refine ⟨_, hspots.detect_eq path content, fun number message => ?_⟩
  rw [if_pos (show nestedComponent.hasClues content = true from rfl)]
  constructor
  · rintro ⟨f, hf, rfl, rfl⟩
    obtain ⟨spot, hspot, rfl⟩ := List.mem_map.mp hf
    obtain ⟨front, number, line, back, x, hls, hx, rfl⟩ := mem_nestedSpots.mp hspot
    exact ⟨front, line, back, x, hls, hx, rfl⟩
  · rintro ⟨front, line, back, x, hls, hx, rfl⟩
    exact ⟨_, List.mem_map_of_mem (mem_nestedSpots.mpr ⟨front, number, line, back, x, hls, hx, rfl⟩), rfl, rfl⟩

/-- **Components without a body in braces.** Let a line declare a component that no other line declares, with no
opening brace behind the declaration. It is named as the component around another one just if that one is declared on
a later line, a brace that leads deeper than the declaration stands in one of the next two pieces of text (a line that
declares a component has two, any other is one), no brace behind it leads back before the other declaration, and the
scope of no component that is declared in between reaches that far. -/
theorem nestedComponent_encloses {content : Text} {before behind : List (Nat × Text)} {d : Declaration}
    (hlines : numberedLines content = before ++ (n, line) :: behind) (hd : declaration? line = some d)
    (hbehind : '\x7b' ∉ d.behind) (honly : d.name.text ∉ declaredNames (before ++ behind)) (path : String) :
    let depth := braceDepth 0 ((before.map Prod.snd).flatten ++ d.head)
    let depthBehind := braceDepth depth d.tail
    ∃ findings, nestedComponent.detect path content = .ok findings ∧ ∀ (number : Nat) (name : String),
      (∃ f ∈ findings, f.location.line = number ∧
        f.message = s!"`{name}` is declared inside `{String.ofList d.name.text}`") ↔
      ∃ between line' rest d', behind = between ++ (number, line') :: rest ∧ declaration? line' = some d' ∧
        String.ofList d'.name.text = name ∧ ScopeReaches depth 2 depthBehind (piecesOf between d'.head) ∧
        ¬ SomeSpans depthBehind between d' := by
  intro depth depthBehind
  obtain ⟨findings, hdetect, hiff⟩ := mem_nestedComponent path content
  refine ⟨findings, hdetect, fun number name => ?_⟩
  have hquote := quote_not_mem_name hd
  rw [declaredNames_append, List.mem_append, not_or] at honly
  obtain ⟨hbefore, hafter⟩ := honly
  have hbetween {between rest : List (Nat × Text)} (hsplit : behind = between ++ rest) :
      d.name.text ∉ declaredNames between := by
    rw [hsplit, declaredNames_append, List.mem_append, not_or] at hafter
    exact hafter.1
  -- no component in front of the line is the enclosing one
  have hfront {front back : List (Nat × Text)} {d' : Declaration} (hsplit : before = front ++ back) :
      ((afterLines start front).feed d'.head).innermost ≠ some d.name.text := fun hinner => by
    rw [hsplit, declaredNames_append, List.mem_append, not_or] at hbefore
    exact ((namesAre_of_not_mem hbefore.1).feed d'.head).innermost hinner rfl
  rw [hiff]
  constructor
  · rintro ⟨front, line', rest, x, hls, hx, hmessage⟩
    obtain ⟨d', hd', hname, hinner⟩ := enclosing?_eq_some_iff.mp hx
    have hquoteless := ((quoteless_afterLines front).feed d'.head).innermost hinner
    obtain ⟨rfl, houter⟩ := message_injective hquote hquoteless hmessage
    rw [← houter] at hinner
    rw [hlines] at hls
    rcases List.append_eq_append_iff.mp hls with ⟨w, rfl, hw⟩ | ⟨w, hsplit, hw⟩
    · rcases List.cons_eq_append_iff.mp hw with ⟨rfl, hw⟩ | ⟨between, rfl, hsplit⟩
      · rw [List.append_nil] at hinner
        exact absurd hinner (hfront (List.append_nil before).symm)
      · refine ⟨between, line', rest, d', hsplit, hd', by rw [hname], ?_⟩
        exact (innermost_behind_line hd hbehind hbefore (hbetween hsplit) n d').mp hinner
    · exact absurd hinner (hfront hsplit)
  · rintro ⟨between, line', rest, d', hsplit, hd', rfl, hreaches⟩
    refine ⟨before ++ (n, line) :: between, line', rest, (d'.name, d.name.text), ?_, ?_, rfl⟩
    · rw [hlines, hsplit, List.append_assoc, List.cons_append]
    · exact enclosing?_eq_some_iff.mpr
        ⟨d', hd', rfl, (innermost_behind_line hd hbehind hbefore (hbetween hsplit) n d').mpr hreaches⟩

/-- The callback behind a component is taken for its body. -/
theorem nestedComponent_encloses_frame :
    let content :=
      "const Icon = () => <svg />;\ndescribe('Icon', () => \x7b\n  const Frame = () => <Icon />;\n\x7d);\n".toList
    ∃ findings, nestedComponent.detect "Icon.test.tsx" content = .ok findings ∧
      ∃ f ∈ findings, f.location.line = 3 ∧ f.message = "`Frame` is declared inside `Icon`" := by
  intro content
  let icon : Declaration := ⟨⟨6, "Icon".toList⟩, "const Icon = () =>".toList, " <svg />;".toList, " <svg />;".toList⟩
  let frame : Declaration := ⟨⟨8, "Frame".toList⟩, "  const Frame = () =>".toList, " <Icon />;".toList,
    " <Icon />;".toList⟩
  let callback : Text := "describe('Icon', () => \x7b".toList
  have hlines : numberedLines content = [] ++ (1, "const Icon = () => <svg />;".toList) ::
      [(2, callback), (3, "  const Frame = () => <Icon />;".toList), (4, "\x7d);".toList)] := rfl
  have hicon : declaration? "const Icon = () => <svg />;".toList = some icon := by decide +kernel
  obtain ⟨findings, hdetect, hiff⟩ :=
    nestedComponent_encloses hlines hicon (by decide) (by decide +kernel) "Icon.test.tsx"
  refine ⟨findings, hdetect, (hiff 3 "Frame").mpr ⟨[(2, callback)], "  const Frame = () => <Icon />;".toList,
    [(4, "\x7d);".toList)], frame, rfl, by decide +kernel, rfl, ?_, ?_⟩⟩
  · exact ⟨"describe('Icon', () => ".toList, "  const Frame = () =>".toList, rfl, by decide,
      staysWithin_of_not_mem (by decide) 0, rfl, (Text.balanced_of_forall (by decide)).staysAbove 1⟩
  · rintro ⟨front, x, back, d₁, hbetween, hd₁, -⟩
    have hcallback : declaration? callback = none := by decide +kernel
    have hx : x ∈ [(2, callback)] := hbetween ▸ List.mem_append_right _ List.mem_cons_self
    rw [List.mem_singleton.mp hx, hcallback] at hd₁
    cases hd₁

/-- A function that opens a brace right behind such a declaration is taken for its body. -/
theorem nestedComponent_names_icon :
    let content := ("const Icon = () => <svg />;\nexport function withRow(C) \x7b\n" ++
      "  const Row = () => <C />;\n  return Row;\n\x7d\n").toList
    (∃ d, declaration? "const Icon = () => <svg />;".toList = some d ∧ d.name.text = "Icon".toList ∧ '\x7b' ∉ d.behind ∧
      d.behind.getLast? = some ';') ∧ (declaredNames (numberedLines content)).count "Icon".toList = 1 ∧
    ∃ findings, nestedComponent.detect "Icon.tsx" content = .ok findings ∧
      findings.map Finding.message = ["`Row` is declared inside `Icon`"] := by
  intro content
  let d : Declaration := ⟨⟨6, "Icon".toList⟩, "const Icon = () =>".toList, " <svg />;".toList, " <svg />;".toList⟩
  refine ⟨⟨d, by decide +kernel, rfl, by decide, by decide⟩, by decide +kernel, _, rfl, by decide +kernel⟩

end Checkup
