import Checkup.Proofs.Rule.FunctionHead
import Checkup.Proofs.Rule.NestedComponent
import Checkup.Proofs.Source.BraceTwin

/-!
# Parameters over several lines

The braces of parameters are not to open the scope of a function component. On one line they are read before the scope
is announced. If they go on behind the line, the scope is announced in front of them, so their first brace opens it
and the one that matches it closes it, and a scope that waits for too many lines is dropped.

* `enclosedPairs`: the components that are declared inside other ones, which are what is reported
  (`nestedComponent_messages`).
* `ParameterBreak`: a function component with its parameters on one line, and the lines over which they are broken.
* `ParameterBreak.alike`: the trackers behind both differ in the scope of the component, unless it is kept.
* `nestedComponent_paramBreak`: what is reported is the same if the scope is kept, and else if nothing is declared in
  it.
-/

namespace Checkup

open BraceScope Text

variable {s : BraceScope Text} {m : Mark Text} {lines : List Text} {line tag : Text}

/-! ## Declared and enclosing components -/

/-- The components that lines declare inside other ones, with those other ones. -/
def enclosedPairs (s : BraceScope Text) : List Text → List (Text × Text)
  | [] => []
  | line :: lines => ((enclosing? s line).map fun x => (x.1.text, x.2)).toList ++ enclosedPairs (afterLine s line) lines

/-- What is said of a component that is declared inside another one. -/
def pairMessage (pair : Text × Text) : String :=
  s!"`{String.ofList pair.1}` is declared inside `{String.ofList pair.2}`"

theorem enclosedPairs_append (s : BraceScope Text) (lines lines' : List Text) :
    enclosedPairs s (lines ++ lines') = enclosedPairs s lines ++ enclosedPairs (lines.foldl afterLine s) lines' := by
  induction lines generalizing s with
  | nil => rfl
  | cons line lines ih => rw [List.cons_append, enclosedPairs, enclosedPairs, ih, List.append_assoc, List.foldl_cons]

theorem map_message_nestedSpots (s : BraceScope Text) (ls : List (Nat × Text)) :
    (nestedSpots s ls).map Spot.message = (enclosedPairs s (ls.map Prod.snd)).map pairMessage := by
  induction ls generalizing s with
  | nil => rfl
  | cons x ls ih =>
    rw [nestedSpots_cons, List.map_append, ih, List.map_cons, enclosedPairs, List.map_append]
    congr 1
    cases enclosing? s x.2 <;> rfl

/-- **What is reported** tells of the components that are declared inside other ones. -/
theorem nestedComponent_messages (path : String) (content : Text) :
    ∃ findings, nestedComponent.detect path content = .ok findings ∧
      findings.map Finding.message = (enclosedPairs .start (Text.lines content)).map pairMessage := by
  have hspots : nestedComponent.ReportsSpots fun _ content => nestedSpots .start (numberedLines content) := rfl
  have hlines : (numberedLines content).map Prod.snd = Text.lines content := by
    rw [numberedLines, List.map_map]
    exact List.zipIdx_map_fst 0 _
  refine ⟨_, hspots.detect_eq path content, ?_⟩
  rw [if_pos (show nestedComponent.hasClues content = true from rfl), List.map_map, ← hlines, ← map_message_nestedSpots]
  rfl

theorem afterLine_of_declares {d : Declaration} (hd : declaration? line = some d) :
    afterLine s line = ((s.feed d.head).announce d.name.text).feed d.tail := by
  rw [afterLine, hd]

theorem enclosing_of_declares {d : Declaration} (hd : declaration? line = some d) :
    (enclosing? s line).map (fun x => (x.1.text, x.2)) =
      (s.feed d.head).innermost.map fun outer => (d.name.text, outer) := by
  simp only [enclosing?, hd, Option.bind_eq_bind, Option.bind_some]
  cases (s.feed d.head).innermost <;> rfl

/-- Lines that declare nothing inside another component. -/
theorem enclosedPairs_of_quiet (hquiet : ∀ line ∈ lines, declaration? line = none) (s : BraceScope Text) :
    enclosedPairs s lines = [] ∧ lines.foldl afterLine s = lines.foldl feed s := by
  induction lines generalizing s with
  | nil => exact ⟨rfl, rfl⟩
  | cons line lines ih =>
    obtain ⟨hline, hquiet⟩ := List.forall_mem_cons.mp hquiet
    have hafter : afterLine s line = s.feed line := by rw [afterLine, hline]
    obtain ⟨hpairs, hlines⟩ := ih hquiet (s.feed line)
    rw [enclosedPairs, List.foldl_cons, List.foldl_cons, hafter, hpairs, enclosing?, hline]
    exact ⟨rfl, hlines⟩

/-! ## Trackers that are alike -/

namespace BraceScope.Alike

variable {floor : Nat} {kept : Bool} {twin : BraceScope Text}

theorem afterLine (h : Alike floor tag kept s twin) (line : Text) :
    Alike floor tag kept (Checkup.afterLine s line) (Checkup.afterLine twin line) := by
  rw [Checkup.afterLine, Checkup.afterLine]
  cases declaration? line with
  | none => exact h.feed line
  | some d => exact ((h.feed d.head).announce d.name.text).feed d.tail

/-- Behind trackers that are alike a line tells of the same components, unless it tells of the scope in which they
differ. -/
theorem enclosing_eq (h : Alike floor tag kept s twin) (hother : kept = true ∨ ∀ x ∈ enclosing? s line, x.2 ≠ tag) :
    enclosing? twin line = enclosing? s line := by
  cases hd : declaration? line with
  | none =>
    rw [enclosing?, enclosing?, hd]
    rfl
  | some d =>
    have hinner : (twin.feed d.head).innermost = (s.feed d.head).innermost := by
      refine (h.feed d.head).innermost (hother.imp_right fun hne hin => ?_)
      have hpair : enclosing? s line = some (d.name, tag) := by simp [enclosing?, hd, hin]
      exact hne _ hpair rfl
    rw [enclosing?, enclosing?, hd]
    simp only [Option.bind_eq_bind, Option.bind_some, hinner]

/-- So the lines that follow tell of the same components. -/
theorem enclosedPairs_eq (h : Alike floor tag kept s twin)
    (hother : kept = true ∨ ∀ pair ∈ enclosedPairs s lines, pair.2 ≠ tag) :
    enclosedPairs twin lines = enclosedPairs s lines := by
  induction lines generalizing s twin with
  | nil => rfl
  | cons line lines ih =>
    rw [enclosedPairs] at hother
    have hline : enclosing? twin line = enclosing? s line :=
      h.enclosing_eq (hother.imp_right fun hne x hx => hne (x.1.text, x.2) (List.mem_append_left _ (by rw [hx]; simp)))
    rw [enclosedPairs, enclosedPairs, hline,
      ih (h.afterLine line) (hother.imp_right fun hne pair hpair => hne pair (List.mem_append_right _ hpair))]

end BraceScope.Alike

/-! ## Trackers between lines -/

/-- What holds of a tracker between two lines: its scopes are settled, and those that wait have waited already. -/
structure BetweenLines (s : BraceScope Text) : Prop where
  settled : Settled s
  grace_lt : ∀ m ∈ s.marks, m.isOpen = false → m.grace < graceLines

namespace BetweenLines

theorem feed (hs : Settled s) (hgrace : ∀ m ∈ s.marks, m.isOpen = false → m.grace ≤ graceLines) (t : Text) :
    BetweenLines (s.feed t) := by
  refine ⟨hs.feed t, fun m hm hclosed => ?_⟩
  obtain ⟨m', hm', hclosed', _, hless⟩ := hs.waits_feed hm hclosed
  have := hgrace m' hm' hclosed'
  omega

theorem afterLine (h : BetweenLines s) (line : Text) : BetweenLines (afterLine s line) := by
  have hle {s : BraceScope Text} (h : BetweenLines s) : ∀ m ∈ s.marks, m.isOpen = false → m.grace ≤ graceLines :=
    fun m hm hclosed => Nat.le_of_lt (h.grace_lt m hm hclosed)
  rw [Checkup.afterLine]
  cases declaration? line with
  | none => exact feed h.settled (hle h) line
  | some d =>
    have hhead := feed h.settled (hle h) d.head
    refine feed (hhead.settled.announce d.name.text) (fun m hm hclosed => ?_) d.tail
    rcases mem_announce.mp hm with hm | rfl
    · exact hle hhead m hm hclosed
    · exact Nat.le_refl _

/-- So it is behind any lines. -/
theorem run (lines : List Text) : BetweenLines (lines.foldl Checkup.afterLine .start) := by
  have hrun (s : BraceScope Text) (h : BetweenLines s) : BetweenLines (lines.foldl Checkup.afterLine s) := by
    induction lines generalizing s with
    | nil => exact h
    | cons line lines ih => exact ih _ (h.afterLine line)
  exact hrun _ ⟨Settled.start, fun _ hm => absurd hm List.not_mem_nil⟩

end BetweenLines

/-! ## Parameters -/

/-- The characters of a text that are no blanks. -/
def ink (t : Text) : Text := t.filter fun c => !c.isBlank

/-- A function component with its parameters on one line, and the lines over which they are broken. -/
structure ParameterBreak where
  name : Text
  /-- the line up to the parameters -/
  head : Text
  params : Text
  first : Text
  middle : List Text
  last : Text
  /-- what follows the parameters on their last line -/
  rest : Text
  declares : FunctionHead name head
  parens : Balanced '(' ')' params
  braces : Balanced '\x7b' '\x7d' params
  /-- but for blanks the parameters are the same -/
  sameInk : ink (first ++ (middle.flatten ++ last)) = ink params
  /-- the body starts on the last line of the parameters -/
  body : ∃ returned start, rest = returned ++ '\x7b' :: start ∧ '\x7b' ∉ returned ∧ '\x7d' ∉ returned
  /-- the lines over which the parameters are broken declare no component -/
  quiet : ∀ line ∈ middle ++ [last ++ ')' :: rest], declaration? line = none

namespace ParameterBreak

variable (b : ParameterBreak)

/-- The line that declares the component with its parameters. -/
def oneLine : Text := b.head ++ '(' :: (b.params ++ ')' :: b.rest)

/-- The lines that declare it with broken parameters. -/
def brokenLines : List Text := (b.head ++ '(' :: b.first) :: (b.middle ++ [b.last ++ ')' :: b.rest])

/-- Whether the scope of the component is open in its body if the parameters are broken. -/
def KeepsScope : Prop := '\x7b' ∉ b.params ∧ b.middle.length ≤ 1

instance : Decidable b.KeepsScope := inferInstanceAs (Decidable (_ ∧ _))

/-- The broken parameters, without the lines' ends. -/
def broken : Text := b.first ++ (b.middle.flatten ++ b.last)

theorem balanced_broken {opener closer : Char} (hopener : opener.isBlank = false) (hcloser : closer.isBlank = false)
    (h : Balanced opener closer b.params) : Balanced opener closer b.broken := by
  have hink : Balanced opener closer (ink b.broken) := by
    rw [broken, b.sameInk]
    exact h.filter (by simp [hopener]) (by simp [hcloser])
  exact hink.of_filter (by simp [hopener]) (by simp [hcloser])

theorem mem_broken_iff {c : Char} (hc : c.isBlank = false) : c ∈ b.broken ↔ c ∈ b.params := by
  have hmem (t : Text) : c ∈ t ↔ c ∈ ink t := by simp [ink, hc]
  rw [hmem, hmem b.params, broken, b.sameInk]

/-- A line that declares a function component, cut behind the parameters. -/
theorem declaration?_of_find {u v : Text} {found : Match} {func : Capture}
    (hfind : componentDeclaration.find (u ++ v) = some found)
    (hfunc : found.group? 1 = some func) (hcut : afterParameters (u ++ v) found = byteSize u) :
    declaration? (u ++ v) = some ⟨func, u, v, Text.dropBytes found.stop (u ++ v)⟩ := by
  simp only [declaration?, hfind, hfunc, hcut, Option.bind_eq_bind, Option.bind_some, takeBytes_append,
    dropBytes_append]
  rfl

/-- The component that the one line declares. -/
theorem declaration?_oneLine :
    ∃ d, declaration? b.oneLine = some d ∧ d.name.text = b.name ∧ d.head = b.head ++ '(' :: (b.params ++ [')']) ∧
      d.tail = b.rest := by
  obtain ⟨found, func, hfind, hfunc, hname, hstop⟩ := b.declares.find (b.params ++ ')' :: b.rest)
  have hcut := FunctionHead.afterParameters_closed b.parens hfunc hstop b.rest
  have hline : b.head ++ '(' :: (b.params ++ ')' :: b.rest) =
      (b.head ++ '(' :: (b.params ++ [')'])) ++ b.rest := by simp
  rw [hline] at hfind hcut
  exact ⟨_, by rw [oneLine, hline]; exact declaration?_of_find hfind hfunc hcut, hname, rfl, rfl⟩

/-- The component that the first of the broken lines declares. -/
theorem declaration?_first :
    ∃ d, declaration? (b.head ++ '(' :: b.first) = some d ∧ d.name.text = b.name ∧ d.head = b.head ∧
      d.tail = '(' :: b.first := by
  obtain ⟨found, func, hfind, hfunc, hname, hstop⟩ := b.declares.find b.first
  have hparens : Balanced '(' ')' (b.first ++ (b.middle.flatten ++ b.last)) :=
    b.balanced_broken (by decide) (by decide) b.parens
  exact ⟨_, declaration?_of_find hfind hfunc (FunctionHead.afterParameters_open hparens hfunc hstop), hname, rfl, rfl⟩

/-- The steps of the broken parameters, up to the parenthesis that closes them. -/
def steps : List (Step Text) :=
  (Call.feed ('(' :: b.first)).steps ++ b.middle.flatMap (fun line => (Call.feed line).steps) ++
    (b.last ++ [')']).map .char

theorem silent_steps : ∀ step ∈ b.steps, step.isSilent = true := by
  refine List.forall_mem_append.mpr ⟨List.forall_mem_append.mpr ⟨BraceScope.silent_steps _, (flatMap_steps _).1⟩, ?_⟩
  exact List.forall_mem_map.mpr fun c _ => rfl

theorem text_steps : b.steps.flatMap Step.text = '(' :: (b.broken ++ [')']) := by
  rw [steps, List.flatMap_append, List.flatMap_append, BraceScope.text_steps, (flatMap_steps _).2.1, text_chars, broken]
  simp only [List.append_assoc, List.cons_append]

theorem ends_steps : b.steps.countP Step.isEnd = 1 + b.middle.length := by
  rw [steps, List.countP_append, List.countP_append, BraceScope.ends_steps, (flatMap_steps _).2.2,
    ends_chars, Nat.add_zero]

/-- The tracker behind the broken lines. -/
theorem foldl_brokenLines (s : BraceScope Text) :
    b.brokenLines.foldl afterLine s = (b.steps.foldl Step.apply ((s.feed b.head).announce b.name)).feed b.rest := by
  obtain ⟨d, hd, hname, hhead, htail⟩ := b.declaration?_first
  have hfirst : afterLine s (b.head ++ '(' :: b.first) = ((s.feed b.head).announce b.name).feed ('(' :: b.first) := by
    rw [afterLine_of_declares hd, hname, hhead, htail]
  have hpieces (s : BraceScope Text) :
      (b.middle.flatMap fun line => (Call.feed line : Call Text).steps).foldl Step.apply s = b.middle.foldl feed s := by
    rw [List.foldl_flatMap]
    simp only [foldl_steps]
    rfl
  rw [brokenLines, List.foldl_cons, hfirst, (enclosedPairs_of_quiet b.quiet _).2, List.foldl_append, List.foldl_cons,
    List.foldl_nil, steps, List.foldl_append, List.foldl_append, foldl_steps, hpieces, List.foldl_map,
    ← List.singleton_append (l := b.rest), ← List.append_assoc, feed_append]
  rfl

theorem balanced_head : Balanced '\x7b' '\x7d' b.head := balanced_of_forall b.declares.ne_brace

theorem balanced_parens {t : Text} (ht : Balanced '\x7b' '\x7d' t) : Balanced '\x7b' '\x7d' ('(' :: (t ++ [')'])) :=
  .other (by decide) (by decide) (ht.append (.other (by decide) (by decide) .nil))

/-- The steps of the broken parameters leave the scope of the component waiting if it is kept. -/
theorem run_steps (h : BetweenLines s) :
    b.steps.foldl Step.apply ((s.feed b.head).announce b.name) = ⟨s.depth, s.marks.filter (·.depth < s.depth) ++
      (if b.KeepsScope then [⟨s.depth, false, graceLines - (1 + b.middle.length), b.name⟩] else [])⟩ := by
  have hdepth : (s.feed b.head).depth = s.depth := by rw [depth_feed, b.balanced_head.braceDepth]
  have hbroken : Balanced '\x7b' '\x7d' (b.steps.flatMap Step.text) :=
    b.text_steps ▸ balanced_parens (b.balanced_broken (by decide) (by decide) b.braces)
  have hends : 0 < b.steps.countP Step.isEnd := by rw [b.ends_steps]; omega
  have hgrace : ∀ m ∈ (s.feed b.head).marks, m.isOpen = false → m.grace ≤ b.steps.countP Step.isEnd :=
    fun m hm hclosed => by
    obtain ⟨m', hm', hclosed', _, hless⟩ := h.settled.waits_feed hm hclosed
    have hlt : m'.grace < 3 := h.grace_lt m' hm' hclosed'
    omega
  have hrun := (h.settled.feed b.head).run_announced b.silent_steps (hbroken.staysAbove _)
    (hbroken.braceDepth _) hends hgrace b.name
  rw [hdepth, h.settled.outer_feed (b.balanced_head.staysAbove s.depth), b.ends_steps] at hrun
  refine eq_of_marks ?_ ?_
  · rw [depth_run, depth_announce, hdepth, hbroken.braceDepth]
  · have hkeeps : ('\x7b' ∉ b.steps.flatMap Step.text ∧ 1 + b.middle.length < graceLines) ↔ b.KeepsScope := by
      rw [b.text_steps, KeepsScope, ← b.mem_broken_iff (by decide), graceLines]
      simp only [List.mem_cons, List.mem_append, List.not_mem_nil, or_false]
      have hne : ('\x7b' : Char) ≠ '(' ∧ ('\x7b' : Char) ≠ ')' := by decide
      rw [or_iff_right hne.1, or_iff_left hne.2]
      exact and_congr_right fun _ => by omega
    rw [hrun]
    simp only [hkeeps]

/-- **The trackers behind both** differ in the scope of the component, if it is not kept. -/
theorem alike (h : BetweenLines s) (hlevel : ∀ m ∈ s.marks, m.isOpen = false → m.depth = s.depth) :
    Alike s.depth b.name (decide b.KeepsScope) (afterLine s b.oneLine) (b.brokenLines.foldl afterLine s) := by
  obtain ⟨d, hd, hname, hhead, htail⟩ := b.declaration?_oneLine
  obtain ⟨returned, start, hrest, hopener, hcloser⟩ := b.body
  have hfront : Balanced '\x7b' '\x7d' (b.head ++ '(' :: (b.params ++ [')'])) :=
    b.balanced_head.append (balanced_parens b.braces)
  generalize b.head ++ '(' :: (b.params ++ [')']) = front at hhead hfront
  have hdepth : (s.feed front).depth = s.depth := by rw [depth_feed, hfront.braceDepth]
  have hone : (s.feed front).announce b.name =
      ⟨s.depth, (s.feed front).marks ++ [⟨s.depth, false, graceLines, b.name⟩]⟩ := by rw [announce, hdepth]
  -- the scopes that are not around the component wait where it stands
  have hlevel' : ∀ m ∈ (s.feed front).marks, s.depth ≤ m.depth → m.depth = s.depth := fun m hm hle => by
    have hiff := h.settled.feed front m hm
    rw [hdepth] at hiff
    have hclosed : m.isOpen = false := Bool.eq_false_iff.mpr fun hopen => Nat.not_lt.mpr hle (hiff.mp hopen)
    obtain ⟨m', hm', hclosed', hsame, _⟩ := h.settled.waits_feed hm hclosed
    rw [← hsame, hlevel m' hm' hclosed']
  rw [afterLine_of_declares hd, hname, hhead, htail, hone, b.foldl_brokenLines, b.run_steps h,
    ← h.settled.outer_feed (hfront.staysAbove s.depth), hrest]
  refine alike_of_brace (show (⟨s.depth, false, graceLines, b.name⟩ : Mark Text).depth = s.depth from rfl)
    rfl hlevel' ?_ ?_
    hopener hcloser start
  · split_ifs
    · simp
    · exact fun _ hm => absurd hm List.not_mem_nil
  · intro hkept
    rw [if_pos (of_decide_eq_true hkept)]
    exact List.cons_ne_nil _ _

/-- The one line tells of the component around this one. -/
theorem enclosedPairs_oneLine (h : Settled s) :
    enclosedPairs s [b.oneLine] = (s.innermost.map fun outer => (b.name, outer)).toList := by
  obtain ⟨d, hd, hname, hhead, _⟩ := b.declaration?_oneLine
  have hfront : Balanced '\x7b' '\x7d' d.head := hhead ▸ b.balanced_head.append (balanced_parens b.braces)
  rw [enclosedPairs, enclosedPairs, enclosing_of_declares hd, h.innermost_feed hfront, hname, List.append_nil]

/-- So do the broken lines. -/
theorem enclosedPairs_brokenLines (h : Settled s) :
    enclosedPairs s b.brokenLines = (s.innermost.map fun outer => (b.name, outer)).toList := by
  obtain ⟨d, hd, hname, hhead, _⟩ := b.declaration?_first
  rw [brokenLines, enclosedPairs, (enclosedPairs_of_quiet b.quiet _).1, enclosing_of_declares hd, hhead,
    h.innermost_feed b.balanced_head, hname, List.append_nil]

theorem quote_not_mem : '\x60' ∉ b.name := by
  obtain ⟨d, hd, hname, _⟩ := b.declaration?_oneLine
  exact hname ▸ quote_not_mem_name hd

/-- Without its scope the names of all scopes are from before. -/
theorem namesAre {P : Text → Prop} (h : BetweenLines s) (hlost : ¬ b.KeepsScope) (hs : NamesAre P s) :
    NamesAre P (b.brokenLines.foldl afterLine s) := by
  rw [b.foldl_brokenLines, b.run_steps h, if_neg hlost, List.append_nil]
  exact NamesAre.feed (fun m hm => hs m (List.mem_of_mem_filter hm)) b.rest

end ParameterBreak

/-! ## Findings -/

/-- The components that are named as the enclosing ones are those that lines declare, or ones from before. -/
theorem NamesAre.enclosedPairs {P : Text → Prop} (h : NamesAre P s)
    (hlines : ∀ line ∈ lines, ∀ d ∈ declaration? line, P d.name.text) :
    NamesAre P (lines.foldl Checkup.afterLine s) ∧ ∀ pair ∈ enclosedPairs s lines, P pair.2 := by
  induction lines generalizing s with
  | nil => exact ⟨h, fun _ hmem => absurd hmem List.not_mem_nil⟩
  | cons line lines ih =>
    obtain ⟨hline, hlines⟩ := List.forall_mem_cons.mp hlines
    obtain ⟨hrun, hpairs⟩ := ih (h.afterLine hline) hlines
    refine ⟨hrun, fun pair hmem => ?_⟩
    rcases List.mem_append.mp hmem with hmem | hmem
    · obtain ⟨x, hx, rfl⟩ := Option.map_eq_some_iff.mp (Option.mem_toList.mp hmem)
      obtain ⟨d, _, _, hinner⟩ := enclosing?_eq_some_iff.mp hx
      exact (h.feed d.head).innermost hinner
    · exact hpairs pair hmem

/-- **Parameters over several lines.** Let no scope wait elsewhere than where the component stands. Then the same is
reported as with the parameters on one line if they have no brace and stand on no more than three lines. If not,
nothing is reported of what is declared right inside the component, and what is reported is the same if there is no
such thing. -/
theorem nestedComponent_paramBreak (b : ParameterBreak) {one broken : Text} {before behind : List Text}
    (hone : Text.lines one = before ++ b.oneLine :: behind)
    (hbroken : Text.lines broken = before ++ (b.brokenLines ++ behind))
    (hlevel : let s : BraceScope Text := before.foldl afterLine .start;
      ∀ m ∈ s.marks, m.isOpen = false → m.depth = s.depth)
    (path : String) :
    let namesIt (f : Finding) := ∃ name : String, f.message = s!"`{name}` is declared inside `{String.ofList b.name}`"
    ∃ findings findings', nestedComponent.detect path one = .ok findings ∧
      nestedComponent.detect path broken = .ok findings' ∧
      ((b.KeepsScope ∨ ∀ f ∈ findings, ¬ namesIt f) → findings'.map Finding.message = findings.map Finding.message) ∧
      (¬ b.KeepsScope → (∀ line ∈ before ++ behind, ∀ d ∈ declaration? line, d.name.text ≠ b.name) →
        ∀ f ∈ findings', ¬ namesIt f) := by
  intro namesIt
  obtain ⟨findings, hdetect, hmessages⟩ := nestedComponent_messages path one
  obtain ⟨findings', hdetect', hmessages'⟩ := nestedComponent_messages path broken
  have hlines := BetweenLines.run before
  generalize hs : before.foldl afterLine .start = s at hlevel hlines
  rw [hone, enclosedPairs_append, hs, ← List.singleton_append, enclosedPairs_append, List.foldl_cons, List.foldl_nil,
    b.enclosedPairs_oneLine hlines.settled] at hmessages
  rw [hbroken, enclosedPairs_append, hs, enclosedPairs_append, b.enclosedPairs_brokenLines hlines.settled] at hmessages'
  refine ⟨findings, findings', hdetect, hdetect', fun hsame => ?_, fun hlost honly f hf hnames => ?_⟩
  · rw [hmessages', hmessages, (b.alike hlines hlevel).enclosedPairs_eq]
    refine hsame.imp (fun hkeeps => decide_eq_true hkeeps) fun hnone pair hpair htag => ?_
    have hmem : pairMessage pair ∈ findings.map Finding.message := by
      rw [hmessages]
      exact List.mem_map_of_mem (List.mem_append_right _ (List.mem_append_right _ hpair))
    obtain ⟨f, hf, hmessage⟩ := List.mem_map.mp hmem
    exact hnone f hf ⟨String.ofList pair.1, by rw [hmessage, pairMessage, htag]⟩
  · obtain ⟨name, hname⟩ := hnames
    have hmem : f.message ∈ findings'.map Finding.message := List.mem_map_of_mem hf
    rw [hmessages'] at hmem
    -- no pair names the component, and the names have no quotes
    let Other (tag : Text) : Prop := '\x60' ∉ tag ∧ tag ≠ b.name
    have hdeclares : ∀ line ∈ before ++ behind, ∀ d ∈ declaration? line, Other d.name.text :=
      fun line hline d hd => ⟨quote_not_mem_name hd, honly line hline d hd⟩
    obtain ⟨hdeclares, hdeclares'⟩ := List.forall_mem_append.mp hdeclares
    obtain ⟨hbefore, hpairs⟩ := NamesAre.start.enclosedPairs hdeclares
    rw [hs] at hbefore
    obtain ⟨_, hpairs'⟩ := (b.namesAre hlines hlost hbefore).enclosedPairs hdeclares'
    obtain ⟨pair, hin, hmessage⟩ := List.mem_map.mp hmem
    have hother : Other pair.2 := by
      rcases List.mem_append.mp hin with hin | hin
      · exact hpairs pair hin
      rcases List.mem_append.mp hin with hin | hin
      · obtain ⟨outer, houter, rfl⟩ := Option.map_eq_some_iff.mp (Option.mem_toList.mp hin)
        exact hbefore.innermost houter
      · exact hpairs' pair hin
    exact hother.2 (message_injective hother.1 b.quote_not_mem (hmessage.trans hname)).2

/-- A scope that waits elsewhere may open behind the body, or wait for too many lines. -/
example :
    let icon := "function Outer() \x7b\n  const Icon = () => <svg />; \x7d\n"
    let rest := " \x7b return a; \x7d if (a) \x7b if (b) \x7b\n  const Row = () => <li />;\n"
    (nestedComponent.detect "a.tsx" (icon ++ "function List(a, b)" ++ rest).toList).map (List.map Finding.message) =
        .ok ["`Icon` is declared inside `Outer`", "`Row` is declared inside `Icon`"] ∧
      (nestedComponent.detect "a.tsx" (icon ++ "function List(a,\n b)" ++ rest).toList).map (List.map Finding.message) =
        .ok ["`Icon` is declared inside `Outer`"] := by
  decide +kernel

/-- The name of a list component. -/
theorem functionHead_list : FunctionHead "List".toList "function List".toList :=
  ⟨⟨'L', "ist".toList, rfl, by decide, by decide⟩, [], [], [' '], rfl, List.forall_mem_nil _,
    ⟨[], [], rfl, Or.inl rfl, Or.inl rfl, fun _ => rfl⟩, List.cons_ne_nil _ _, by decide⟩

/-- A parameter on a line of its own. -/
theorem nestedComponent_paramBreak_items :
    let body := "  const Row = () => <li />;\n  return <Row />;\n\x7d\n".toList
    let one := "function List(items) \x7b\n".toList ++ body
    let broken := "function List(\n  items\n) \x7b\n".toList ++ body
    ∃ findings findings', nestedComponent.detect "List.tsx" one = .ok findings ∧
      nestedComponent.detect "List.tsx" broken = .ok findings' ∧
      findings'.map Finding.message = findings.map Finding.message ∧
      findings.map Finding.message = ["`Row` is declared inside `List`"] := by
  intro body one broken
  let b : ParameterBreak :=
    { name := "List".toList, head := "function List".toList, params := "items".toList, first := [],
      middle := ["  items".toList], last := [], rest := " \x7b".toList, declares := functionHead_list,
      parens := balanced_of_forall (by decide), braces := balanced_of_forall (by decide), sameInk := by decide +kernel,
      body := ⟨[' '], [], rfl, by decide, by decide⟩, quiet := by decide +kernel }
  have hkeeps : b.KeepsScope := by decide
  have hone : Text.lines one = [] ++ b.oneLine :: Text.lines body := by decide +kernel
  have hbroken : Text.lines broken = [] ++ (b.brokenLines ++ Text.lines body) := by decide +kernel
  obtain ⟨findings, findings', hdetect, hdetect', hsame, _⟩ :=
    nestedComponent_paramBreak b hone hbroken (fun _ hm => absurd hm List.not_mem_nil) "List.tsx"
  have hmessages : (nestedComponent.detect "List.tsx" one).map (List.map Finding.message) =
      .ok ["`Row` is declared inside `List`"] := by decide +kernel
  rw [hdetect] at hmessages
  exact ⟨findings, findings', hdetect, hdetect', hsame (Or.inl hkeeps), Except.ok.inj hmessages⟩

/-- A pattern over several lines opens and closes the scope of the component, so what its body declares is not
reported. -/
theorem nestedComponent_loses_row :
    let body := "  const Row = () => <li />;\n  return <Row />;\n\x7d\n".toList
    let one := "function List(\x7b items \x7d) \x7b\n".toList ++ body
    let broken := "function List(\x7b\n  items\n\x7d) \x7b\n".toList ++ body
    (∃ b : ParameterBreak, Text.lines one = b.oneLine :: Text.lines body ∧
      Text.lines broken = b.brokenLines ++ Text.lines body) ∧
      (nestedComponent.detect "List.tsx" one).map (List.map Finding.message) = .ok ["`Row` is declared inside `List`"] ∧
      nestedComponent.detect "List.tsx" broken = .ok [] := by
  intro body one broken
  let b : ParameterBreak :=
    { name := "List".toList, head := "function List".toList, params := "\x7b items \x7d".toList, first := ['\x7b'],
      middle := ["  items".toList], last := ['\x7d'], rest := " \x7b".toList, declares := functionHead_list,
      parens := balanced_of_forall (by decide),
      braces := show Balanced '\x7b' '\x7d' ('\x7b' :: (" items ".toList ++ ['\x7d'])) from
        .nested (balanced_of_forall (by decide)) .nil,
      sameInk := by decide +kernel, body := ⟨[' '], [], rfl, by decide, by decide⟩, quiet := by decide +kernel }
  exact ⟨⟨b, by decide +kernel, by decide +kernel⟩, by decide +kernel, by decide +kernel⟩

end Checkup
