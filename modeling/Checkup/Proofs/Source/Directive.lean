import Checkup.Proofs.Location.Basic
import Checkup.Proofs.Text.Lines
import Checkup.Proofs.Text.Occurrence
import Checkup.Proofs.Text.Piece
import Checkup.Source.Directive

/-!
# The directive of a file

* `Directive.ofLine_eq_some_iff`: a line gives a directive if and only if it is the quoted directive, between blanks and
  with semicolons behind it (`Directive.IsStatedBy`).
* `findDirective_eq_some_iff`: the directive of a file is the first one that a line states, with less than five lines in
  front of it that are not blank. As lines that are not blank come `inkLines`.
* `findDirective_of_ink`, `findDirective_insert`, `findDirective_append`: blank lines only move the number, and what
  follows the first lines makes no difference.
-/

namespace Checkup

variable {line : Text} {d : Directive}

/-! ## The statement of a directive -/

namespace Text

variable {t u w : Text} {mark : Char}

theorem between?_eq_some_iff : between? mark t = some u ↔ t = mark :: (u ++ [mark]) := by
  simp only [between?, Option.bind_eq_some_iff, after?_eq_some_iff, before?_eq_some_iff]
  constructor
  · rintro ⟨v, rfl, rfl⟩
    rfl
  · rintro rfl
    exact ⟨_, rfl, rfl⟩

/-- Blanks behind a text stay there once it is trimmed if characters that are no blanks follow them. -/
theorem exists_trim_eq {c x : Char} {lead gap tail : Text} (hc : c.isBlank = false)
    (hlead : ∀ x ∈ lead, x.isBlank = true) (hgap : ∀ x ∈ gap, x.isBlank = true) (htail : ∀ x ∈ tail, x.isBlank = true)
    (hx : x.isBlank = false)
    (hlast : ∀ y ∈ (x :: t).getLast?, y.isBlank = false) (n : Nat) :
    ∃ gap', (∀ x ∈ gap', x.isBlank = true) ∧
      trim (lead ++ (x :: t ++ (gap ++ (List.replicate n c ++ tail)))) = (x :: t ++ gap') ++ List.replicate n c := by
  cases n with
  | zero =>
    refine ⟨[], List.forall_mem_nil _, ?_⟩
    have hbehind : ∀ x ∈ gap ++ tail, x.isBlank = true := fun x hx => (List.mem_append.mp hx).elim (hgap x) (htail x)
    rw [trim_lead hlead, List.replicate_zero, List.nil_append, trim_append hbehind, trim, trimStart_cons hx,
      trimEnd_eq_self hlast, List.append_nil, List.append_nil]
  | succ n =>
    refine ⟨gap, hgap, ?_⟩
    rw [trim_lead hlead, ← List.append_assoc, ← List.append_assoc, trim_append htail, trim, List.cons_append,
      List.cons_append, trimStart_cons hx, trimEnd_eq_self]
    intro y hy
    rw [List.replicate_succ', ← List.append_assoc, ← List.cons_append, List.getLast?_concat] at hy
    exact Option.some_inj.mp hy ▸ hc

end Text

/-- The text of a directive. -/
def Directive.words : Directive → Text
  | client => "use client".toList
  | server => "use server".toList

/-- The directive in quotation marks. -/
def Directive.quoted (d : Directive) (mark : Char) : Text := mark :: (d.words ++ [mark])

/-- Whether the line is the quoted directive. Blanks may stand on both sides, and semicolons in front of the last
blanks. -/
def Directive.IsStatedBy (d : Directive) (line : Text) : Prop :=
  ∃ lead mark gap n tail, line = lead ++ (d.quoted mark ++ (gap ++ (List.replicate n ';' ++ tail))) ∧
    mark ∈ ['\"', '\''] ∧ ∀ x ∈ lead ++ (gap ++ tail), x.isBlank = true

namespace Directive

/-- The directive whose text is quoted. -/
theorem ofLine_eq_some : ofLine line = some d ↔ ∃ mark ∈ ['\"', '\''],
    Text.trimEnd (Text.trimEndBy (· == ';') (Text.trim line)) = d.quoted mark := by
  unfold ofLine
  dsimp only
  generalize Text.trimEnd (Text.trimEndBy (· == ';') (Text.trim line)) = statement
  have hquoted : (∃ mark ∈ ['\"', '\''], statement = d.quoted mark) ↔
      (Text.between? '\"' statement).or (Text.between? '\'' statement) = some d.words := by
    rw [Option.or_eq_some_iff, Text.between?_eq_some_iff, Text.between?_eq_some_iff]
    constructor
    · rintro ⟨mark, hmark, rfl⟩
      simp only [List.mem_cons, List.not_mem_nil, or_false] at hmark
      rcases hmark with rfl | rfl
      · exact Or.inl rfl
      · refine Or.inr ⟨Option.eq_none_iff_forall_ne_some.mpr fun u hu => ?_, rfl⟩
        cases (List.cons.inj (Text.between?_eq_some_iff.mp hu)).1
    · rintro (h | ⟨-, h⟩)
      · exact ⟨_, List.mem_cons_self, h⟩
      · exact ⟨_, List.mem_cons_of_mem _ List.mem_cons_self, h⟩
  rw [hquoted]
  have hwords (t : Text) : (if t = "use client".toList then some client
      else if t = "use server".toList then some server else none) = some d ↔ t = d.words := by
    constructor
    · intro h
      split at h
      · cases h
        assumption
      split at h
      · cases h
        assumption
      · cases h
    · rintro rfl
      cases d
      · rfl
      · rfl
  cases (Text.between? '\"' statement).or (Text.between? '\'' statement) with
  | none => exact ⟨nofun, nofun⟩
  | some t => exact (hwords t).trans Option.some_inj.symm

/-- A line gives a directive if and only if it is the quoted directive. -/
theorem ofLine_eq_some_iff : ofLine line = some d ↔ d.IsStatedBy line := by
  rw [ofLine_eq_some]
  constructor
  · rintro ⟨mark, hmark, hstatement⟩
    obtain ⟨lead, tail, hlead, htail, hline⟩ := Text.exists_trim line
    obtain ⟨semicolons, hsemicolons, htrim⟩ := Text.exists_trimEndBy (· == ';') (Text.trim line)
    obtain ⟨gap, hgap, hend⟩ := Text.exists_trimEnd (Text.trimEndBy (· == ';') (Text.trim line))
    refine ⟨lead, mark, gap, semicolons.length, tail, ?_, hmark, ?_⟩
    · rw [← List.eq_replicate_of_mem fun x hx => eq_of_beq (hsemicolons x hx), hline, htrim, hend, hstatement]
      simp
    · intro x hx
      simp only [List.mem_append] at hx
      exact hx.elim (hlead x) fun hx => hx.elim (hgap x) (htail x)
  · rintro ⟨lead, mark, gap, n, tail, rfl, hmark, hblank⟩
    have hmarks : ∀ c ∈ ['\"', '\''], c.isBlank = false ∧ (c == ';') = false := by decide
    have hlast : ∀ x ∈ (d.quoted mark).getLast?, x = mark := by
      intro x hx
      rw [quoted, ← List.cons_append, List.getLast?_concat] at hx
      exact (Option.some_inj.mp hx).symm
    have hlead : ∀ x ∈ lead, x.isBlank = true := fun x hx => hblank x (by simp [hx])
    have hgap : ∀ x ∈ gap, x.isBlank = true := fun x hx => hblank x (by simp [hx])
    have htail : ∀ x ∈ tail, x.isBlank = true := fun x hx => hblank x (by simp [hx])
    obtain ⟨gap', hgap', htrim⟩ := Text.exists_trim_eq (by decide : (';').isBlank = false) hlead hgap htail
      (hmarks mark hmark).1 (fun x hx => (hlast x hx) ▸ (hmarks mark hmark).1) n
    rw [← quoted] at htrim
    refine ⟨mark, hmark, ?_⟩
    rw [htrim, Text.trimEndBy_append_of_last fun x hx => by simp [List.eq_of_mem_replicate hx],
      Text.trimEnd_append hgap', Text.trimEnd_eq_self fun x hx => (hlast x hx) ▸ (hmarks mark hmark).1]
    intro x hx
    rcases Text.mem_getLast?_append hx with hx | hx
    · exact hlast x hx ▸ (hmarks mark hmark).2
    · exact Text.beq_of_class (by decide) (hgap' x hx)

/-- A stated directive is no blank line. -/
theorem IsStatedBy.isBlank_eq (h : d.IsStatedBy line) : Text.isBlank line = false := by
  obtain ⟨lead, mark, gap, n, tail, rfl, hmark, -⟩ := h
  have hmarks : ∀ c ∈ ['\"', '\''], c.isBlank = false := by decide
  refine Bool.eq_false_iff.mpr fun hall => ?_
  have := List.all_eq_true.mp hall mark (by simp [quoted])
  rw [hmarks mark hmark] at this
  cases this

end Directive

/-! ## The first lines -/

/-- Whether a line is not blank. -/
def isInk (line : Text) : Bool := !Text.isBlank line

/-- The lines that are not blank, with their numbers. -/
def inkLines (content : Text) : List (Nat × Text) := (numberedLines content).filter fun x => isInk x.2

/-- The first directive on the first `k` of the given lines. -/
def firstDirective (k : Nat) (ls : List (Nat × Text)) : Option (Directive × Nat) :=
  ((ls.take k).filter fun x => !isCommentLine x.2).findSome? fun x => (Directive.ofLine x.2).map (·, x.1)

theorem findDirective_eq (content : Text) : findDirective content = firstDirective directiveWindow (inkLines content) :=
  rfl

variable {ls : List (Nat × Text)} {n k : Nat} {content a b w : Text}

theorem firstDirective_cons (x : Nat × Text) : firstDirective (k + 1) (x :: ls) = some (d, n) ↔
    (x.1 = n ∧ isCommentLine x.2 = false ∧ d.IsStatedBy x.2) ∨
      (isCommentLine x.2 = false → ∀ d' : Directive, ¬ d'.IsStatedBy x.2) ∧ firstDirective k ls = some (d, n) := by
  simp only [← Directive.ofLine_eq_some_iff]
  rw [firstDirective, List.take_succ_cons, List.filter_cons]
  cases hcomment : isCommentLine x.2 with
  | true => simp [firstDirective]
  | false =>
    rw [Bool.not_false, if_pos rfl, List.findSome?_cons]
    cases hline : Directive.ofLine x.2 with
    | none => simp [firstDirective]
    | some d' => simp [and_comm]

/-- Whether the first directive of the lines stands on the line with number `n`, behind less than `k` that are not
blank. -/
def StatesFirst (k : Nat) (ls : List (Nat × Text)) (d : Directive) (n : Nat) : Prop := ∃ before line behind,
  ls = before ++ (n, line) :: behind ∧ before.countP (fun x => isInk x.2) < k ∧ isCommentLine line = false ∧
    d.IsStatedBy line ∧ ∀ x ∈ before, isCommentLine x.2 = false → ∀ d' : Directive, ¬ d'.IsStatedBy x.2

theorem statesFirst_cons (x : Nat × Text) : StatesFirst k (x :: ls) d n ↔
    (0 < k ∧ x.1 = n ∧ isCommentLine x.2 = false ∧ d.IsStatedBy x.2) ∨
      (isCommentLine x.2 = false → ∀ d' : Directive, ¬ d'.IsStatedBy x.2) ∧
        StatesFirst (k - if isInk x.2 then 1 else 0) ls d n := by
  have hcount (before : List (Nat × Text)) : (x :: before).countP (fun x => isInk x.2) < k ↔
      before.countP (fun x => isInk x.2) < k - if isInk x.2 then 1 else 0 := by
    rw [List.countP_cons]
    omega
  constructor
  · rintro ⟨before, line, behind, heq, hlt, hcomment, hd, hbefore⟩
    rcases List.cons_eq_append_iff.mp heq with ⟨rfl, h⟩ | ⟨before, rfl, rfl⟩
    · obtain ⟨rfl, -⟩ := List.cons.inj h
      exact Or.inl ⟨hlt, rfl, hcomment, hd⟩
    · obtain ⟨hx, hbefore⟩ := List.forall_mem_cons.mp hbefore
      exact Or.inr ⟨hx, before, line, behind, rfl, (hcount before).mp hlt, hcomment, hd, hbefore⟩
  · rintro (⟨hk, rfl, hcomment, hd⟩ | ⟨hx, before, line, behind, rfl, hlt, hcomment, hd, hbefore⟩)
    · exact ⟨[], x.2, ls, rfl, hk, hcomment, hd, by simp⟩
    · exact ⟨x :: before, line, behind, rfl, (hcount before).mpr hlt, hcomment, hd,
        List.forall_mem_cons.mpr ⟨hx, hbefore⟩⟩

/-- The first directive on the first `k` lines that are not blank stands behind less than `k` such lines. -/
theorem firstDirective_filter :
    firstDirective k (ls.filter fun x => isInk x.2) = some (d, n) ↔ StatesFirst k ls d n := by
  induction ls generalizing k with
  | nil => simp [firstDirective, StatesFirst]
  | cons x ls ih =>
    rw [List.filter_cons, statesFirst_cons]
    split
    · cases k with
      | zero =>
        have hnone : ¬ StatesFirst 0 ls d n := fun ⟨_, _, _, _, hlt, _⟩ => absurd hlt (Nat.not_lt_zero _)
        simp [firstDirective, hnone]
      | succ k => rw [firstDirective_cons, ih, Nat.add_sub_cancel, and_iff_right (Nat.succ_pos k)]
    · rename_i hink
      -- no directive is stated by a blank line
      have hx (d' : Directive) : ¬ d'.IsStatedBy x.2 := fun hd' => hink (by simp [isInk, hd'.isBlank_eq])
      simp [ih, hx]

theorem map_snd_numberedLines (content : Text) : (numberedLines content).map Prod.snd = Text.lines content := by
  rw [numberedLines, List.map_map]
  exact List.zipIdx_map_fst 0 _

/-- The numbered lines around one of them are the lines around it, and as many as its number says. -/
theorem numberedLines_eq_append {before behind : List (Nat × Text)}
    (h : numberedLines content = before ++ (n, line) :: behind) :
    Text.lines content = before.map Prod.snd ++ line :: behind.map Prod.snd ∧ n = before.length + 1 := by
  constructor
  · rw [← map_snd_numberedLines, h, List.map_append, List.map_cons]
  · have hget : (numberedLines content)[before.length]? = some (n, line) := by rw [h]; simp
    simp only [numberedLines, List.getElem?_map, List.getElem?_zipIdx, Option.map_map, Option.map_eq_some_iff] at hget
    obtain ⟨l, -, hl⟩ := hget
    simp only [Function.comp, Prod.mk.injEq] at hl
    omega

theorem exists_numberedLines_eq {before behind : List Text} (h : Text.lines content = before ++ line :: behind) :
    ∃ before' behind', before'.map Prod.snd = before ∧
      numberedLines content = before' ++ (before.length + 1, line) :: behind' := by
  rw [numberedLines, h, List.zipIdx_append, List.map_append, List.zipIdx_cons, List.map_cons]
  refine ⟨_, _, ?_, by rw [Nat.zero_add]⟩
  rw [List.map_map]
  exact List.zipIdx_map_fst 0 _

/-- The directive is the first one on a line, with less than five lines in front of it that are not blank. -/
theorem findDirective_eq_some_iff : findDirective content = some (d, n) ↔ ∃ before line behind,
    Text.lines content = before ++ line :: behind ∧ n = before.length + 1 ∧ before.countP isInk < directiveWindow ∧
      isCommentLine line = false ∧ d.IsStatedBy line ∧
      ∀ l ∈ before, isCommentLine l = false → ∀ d' : Directive, ¬ d'.IsStatedBy l := by
  rw [findDirective_eq, inkLines, firstDirective_filter]
  constructor
  · rintro ⟨before, line, behind, h, hcount, hcomment, hd, hbefore⟩
    obtain ⟨hlines, hn⟩ := numberedLines_eq_append h
    refine ⟨_, line, _, hlines, by rw [hn, List.length_map], ?_, hcomment, hd, List.forall_mem_map.mpr hbefore⟩
    rwa [List.countP_map]
  · rintro ⟨before, line, behind, hlines, rfl, hcount, hcomment, hd, hbefore⟩
    obtain ⟨before', behind', rfl, h⟩ := exists_numberedLines_eq hlines
    exact ⟨before', line, behind', h, by rwa [List.countP_map] at hcount, hcomment, hd, List.forall_mem_map.mp hbefore⟩

/-- Texts with the same lines that are not blank have the same directive, on the same one of these lines. -/
theorem findDirective_of_ink {content' : Text}
    (h : (Text.lines content').filter isInk = (Text.lines content).filter isInk)
    (hd : findDirective content = some (d, n)) : ∃ n', findDirective content' = some (d, n') ∧
      ((Text.lines content').take n').filter isInk = ((Text.lines content).take n).filter isInk := by
  obtain ⟨before, line, behind, hlines, rfl, hcount, hcomment, hd, hbefore⟩ := findDirective_eq_some_iff.mp hd
  have hink : isInk line = true := by simp [isInk, hd.isBlank_eq]
  rw [hlines, List.filter_append, List.filter_cons_of_pos hink] at h
  obtain ⟨before', rest, hlines', hfilter, hrest⟩ := List.filter_eq_append_iff.mp h
  obtain ⟨blanks, behind', rfl, hblanks, -, hbehind⟩ := List.filter_eq_cons_iff.mp hrest
  have hnone : blanks.filter isInk = [] := List.filter_eq_nil_iff.mpr hblanks
  have hsame : (before' ++ blanks).filter isInk = before.filter isInk := by
    rw [List.filter_append, hnone, List.append_nil, hfilter]
  have hsplit : Text.lines content' = (before' ++ blanks) ++ line :: behind' := by rw [hlines', List.append_assoc]
  refine ⟨(before' ++ blanks).length + 1,
    findDirective_eq_some_iff.mpr ⟨_, line, behind', hsplit, rfl, ?_, hcomment, hd, ?_⟩, ?_⟩
  · rwa [List.countP_eq_length_filter, hsame, ← List.countP_eq_length_filter]
  · intro l hl hc d' hd'
    have hmem : l ∈ before.filter isInk := by
      rw [← hsame]
      exact List.mem_filter.mpr ⟨hl, by simp [isInk, hd'.isBlank_eq]⟩
    exact hbefore l (List.mem_filter.mp hmem).1 hc d' hd'
  · have htake (b c : List Text) : (b ++ line :: c).take (b.length + 1) = b ++ [line] := by
      rw [List.append_cons]
      exact List.take_left' (by rw [List.length_append, List.length_singleton])
    rw [hsplit, hlines, htake, htake, List.filter_append, hsame, ← List.filter_append]

/-! ## Blank lines and what follows the first lines -/

theorem inkLines_append (ha : a.EndsLine) (b : Text) :
    inkLines (a ++ b) = inkLines a ++ lowerBy (Text.lines a).length (inkLines b) := by
  rw [inkLines, numberedLines_append ha, List.filter_append, lowerBy, List.filter_map]
  rfl

theorem inkLines_of_blank (hw : ∀ x ∈ w, x.isBlank = true) : inkLines w = [] := by
  refine List.filter_eq_nil_iff.mpr fun x hx => ?_
  have hline : x.2 ∈ Text.lines w := List.mem_of_getElem? (mem_numberedLines.mp hx).2
  have hblank : Text.isBlank x.2 = true :=
    List.all_eq_true.mpr fun c hc => hw c ((Text.infix_of_mem_lines hline).subset hc)
  simp [isInk, hblank]

/-- The number of a line with `j` lines more behind the first `k` ones. -/
def lowerBehind (k j n : Nat) : Nat := if n ≤ k then n else n + j

/-- Blank lines that are put in move the lines behind them. -/
theorem inkLines_insert (ha : a.EndsLine) (hw : w.EndsLine) (hblank : ∀ x ∈ w, x.isBlank = true) (b : Text) :
    inkLines (a ++ (w ++ b)) =
      (inkLines (a ++ b)).map fun x => (lowerBehind (Text.lines a).length (Text.lines w).length x.1, x.2) := by
  rw [inkLines_append ha, inkLines_append ha, inkLines_append hw, inkLines_of_blank hblank, List.nil_append,
    List.map_append]
  have hnumber {t : Text} {x : Nat × Text} (hx : x ∈ inkLines t) : 1 ≤ x.1 ∧ x.1 ≤ (Text.lines t).length := by
    obtain ⟨hone, hget⟩ := mem_numberedLines.mp (List.mem_filter.mp hx).1
    have := (List.getElem?_eq_some_iff.mp hget).1
    omega
  congr 1
  · refine (List.map_id _).symm.trans (List.map_congr_left fun x hx => ?_)
    rw [lowerBehind, if_pos (hnumber hx).2]
    rfl
  · simp only [lowerBy, List.map_map]
    refine List.map_congr_left fun x hx => ?_
    have := hnumber hx
    simp only [Function.comp, lowerBehind, Prod.mk.injEq, and_true]
    rw [if_neg (by omega)]
    omega

theorem firstDirective_map (f : Nat → Nat) (k : Nat) (ls : List (Nat × Text)) :
    firstDirective k (ls.map fun x => (f x.1, x.2)) = (firstDirective k ls).map fun x => (x.1, f x.2) := by
  rw [firstDirective, firstDirective, ← List.map_take, List.filter_map, List.findSome?_map, List.map_findSome?]
  congr 1
  funext x
  simp only [Function.comp, Option.map_map]
  rfl

theorem findDirective_insert (ha : a.EndsLine) (hw : w.EndsLine) (hblank : ∀ x ∈ w, x.isBlank = true) (b : Text) :
    findDirective (a ++ (w ++ b)) = (findDirective (a ++ b)).map fun x =>
      (x.1, lowerBehind (Text.lines a).length (Text.lines w).length x.2) := by
  rw [findDirective_eq, findDirective_eq, inkLines_insert ha hw hblank, firstDirective_map]

/-- What follows the first lines is not looked at. -/
theorem findDirective_append (ha : a.EndsLine) (hcount : directiveWindow ≤ (Text.lines a).countP isInk) (b : Text) :
    findDirective (a ++ b) = findDirective a := by
  have hlength : directiveWindow ≤ (inkLines a).length := by
    rwa [inkLines, ← List.countP_eq_length_filter, ← map_snd_numberedLines, List.countP_map] at *
  rw [findDirective_eq, findDirective_eq, inkLines_append ha, firstDirective, firstDirective,
    List.take_append_of_le_length hlength]

/-- **The directive of a file** is the first one that a line states among the first five lines that are not blank, apart
from comments, and it comes with the number of that line. So texts with the same lines that are not blank have the same
directive, on the same one of these lines: blank lines that are put in between two lines only move the number. What
follows five lines that are not blank makes no difference. -/
theorem findDirective_firstLines (content : Text) :
    (∀ d n, findDirective content = some (d, n) ↔ ∃ before line behind,
      Text.lines content = before ++ line :: behind ∧ n = before.length + 1 ∧ before.countP isInk < 5 ∧
        isCommentLine line = false ∧ d.IsStatedBy line ∧
        ∀ l ∈ before, isCommentLine l = false → ∀ d' : Directive, ¬ d'.IsStatedBy l) ∧
    (∀ content', (Text.lines content').filter isInk = (Text.lines content).filter isInk →
      (findDirective content').map Prod.fst = (findDirective content).map Prod.fst ∧
      ∀ d n d' n', findDirective content = some (d, n) → findDirective content' = some (d', n') →
        ((Text.lines content').take n').filter isInk = ((Text.lines content).take n).filter isInk) ∧
    (∀ a w b, content = a ++ b → a.EndsLine → w.EndsLine → (∀ x ∈ w, x.isBlank = true) →
      findDirective (a ++ (w ++ b)) = (findDirective content).map fun x =>
        (x.1, if x.2 ≤ (Text.lines a).length then x.2 else x.2 + (Text.lines w).length)) ∧
    ∀ a b b', content = a ++ b → a.EndsLine → 5 ≤ (Text.lines a).countP isInk →
      findDirective (a ++ b') = findDirective content := by
  refine ⟨fun d n => findDirective_eq_some_iff, fun content' h => ⟨?_, fun d n d' n' hd hd' => ?_⟩, ?_, ?_⟩
  · refine Option.ext fun d => ?_
    simp only [Option.map_eq_some_iff, Prod.exists, exists_and_right, exists_eq_right]
    constructor
    · rintro ⟨n, hd⟩
      obtain ⟨n', hd', -⟩ := findDirective_of_ink h.symm hd
      exact ⟨n', hd'⟩
    · rintro ⟨n, hd⟩
      obtain ⟨n', hd', -⟩ := findDirective_of_ink h hd
      exact ⟨n', hd'⟩
  · obtain ⟨m, hm, hsame⟩ := findDirective_of_ink h hd
    obtain ⟨-, rfl⟩ := Prod.mk.inj (Option.some_inj.mp (hd'.symm.trans hm))
    exact hsame
  · rintro a w b rfl ha hw hblank
    exact findDirective_insert ha hw hblank b
  · rintro a b b' rfl ha hcount
    rw [findDirective_append ha hcount, findDirective_append ha hcount]

/-- Two blank lines in front of a directive behind a comment, and a directive behind five lines that are not blank. -/
theorem findDirective_firstLines_padded :
    let a : Text := "// page\n".toList
    let w : Text := " \t\n\r\n".toList
    let b : Text := "'use client' ;\nlet x\n".toList
    let full : Text := "let a\nlet b\n\n// c\nlet d\n\"use server\"\n".toList
    a.EndsLine ∧ w.EndsLine ∧ (∀ x ∈ w, x.isBlank = true) ∧
      (Text.lines (a ++ (w ++ b))).filter isInk = (Text.lines (a ++ b)).filter isInk ∧
      full.EndsLine ∧ 5 ≤ (Text.lines full).countP isInk ∧
      findDirective (a ++ b) = some (.client, 2) ∧ findDirective (a ++ (w ++ b)) = some (.client, 4) ∧
      (findDirective (a ++ (w ++ b))).map Prod.fst = some .client ∧
      findDirective (full ++ b) = some (.server, 6) := by
  intro a w b full
  have ha : a.EndsLine := by decide
  have hw : w.EndsLine := by decide
  have hblank : ∀ x ∈ w, x.isBlank = true := by decide
  have hsame : (Text.lines (a ++ (w ++ b))).filter isInk = (Text.lines (a ++ b)).filter isInk := by decide
  have hfull : full.EndsLine := by decide
  have hcount : 5 ≤ (Text.lines full).countP isInk := by decide
  have hd : findDirective (a ++ b) = some (.client, 2) := by decide +kernel
  obtain ⟨-, hink, hinsert, -⟩ := findDirective_firstLines (a ++ b)
  obtain ⟨-, -, -, happend⟩ := findDirective_firstLines (full ++ [])
  refine ⟨ha, hw, hblank, hsame, hfull, hcount, hd, ?_, ?_, ?_⟩
  · rw [hinsert a w b rfl ha hw hblank, hd]
    decide
  · rw [(hink _ hsame).1, hd]
    rfl
  · rw [happend full [] b rfl hfull hcount]
    decide +kernel

end Checkup
