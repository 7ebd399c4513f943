import Checkup.Proofs.Source.ImportForm
import Checkup.Proofs.Text.Run

/-!
# Imports line by line

A source whose lines are imports in the common forms and lines of other code imports just the specifiers of these
lines, whatever lines come one after the other (`SourceLine.imports_join`): no import takes anything of another line but
blanks.

* `CodeLine`: a line of other code. No match starts in it (`CodeLine.unmatched`).
* `refsOf_reference`: what an import adds, in front of any text.
* `refsOf_join`: what all lines add, by induction. Blank lines are kept for the next line, whose match takes them.
-/

namespace Checkup

open Pattern
open Cursor (behind)

variable {pre b rest : Text}

/-! ## Lines -/

/-- The name of a module, without quotation marks and line ends. -/
structure ModuleName where
  text : Text
  ne : text ≠ []
  plain : ∀ x ∈ text, x ∉ ['\'', '\"', '\n']

/-- A line of other code, without quotation marks and neither of the words `import` and `export`. -/
structure CodeLine where
  text : Text
  oneLine : '\n' ∉ text
  quoteless : Quoteless text
  wordless : ∀ word ∈ ["import", "export"], word.toList ∉ Text.runs Char.isName text

/-- Single or double quotation marks. -/
inductive QuoteMark where
  | single
  | double

/-- The character of the quotation mark. -/
def QuoteMark.char : QuoteMark → Char
  | single => '\''
  | double => '\"'

/-- A line of a source: an import, or other code. -/
inductive SourceLine where
  | reference (form : ImportForm) (mark : QuoteMark) (name : ModuleName)
  | code (line : CodeLine)

namespace SourceLine

/-- The text of a line. -/
def text : SourceLine → Text
  | reference form mark name => form.lead ++ mark.char :: (name.text ++ mark.char :: form.tail)
  | code line => line.text

/-- What the lines import, if the first of them starts at a place: the specifiers, with the places where they start. -/
def refsFrom (pos : Nat) : List SourceLine → List ImportRef
  | [] => []
  | reference form mark name :: ls =>
    ⟨name.text, pos + Text.byteSize form.lead + 1⟩ ::
      refsFrom (pos + Text.byteSize (reference form mark name).text + 1) ls
  | code line :: ls => refsFrom (pos + Text.byteSize line.text + 1) ls

/-- The text of several lines. -/
def join (ls : List SourceLine) : Text := Text.join ['\n'] (ls.map text)

/-- What comes behind a line that these lines follow. -/
def behindLine : List SourceLine → Text
  | [] => []
  | ls => '\n' :: join ls

theorem join_cons (l : SourceLine) (ls : List SourceLine) : join (l :: ls) = l.text ++ behindLine ls := by
  cases ls with
  | nil => simp [join, behindLine, Text.join]
  | cons l' ls => simp [join, behindLine, Text.join, List.intercalate_cons_cons]

end SourceLine

/-! ## Lines of other code -/

theorem isName_eq_false_of_isBlank {x? : Option Char} (h : ∀ x ∈ x?, x.isBlank = true) :
    x?.any Char.isName = false := by
  refine Text.any_eq_false_iff.mpr fun x hx => ?_
  rw [Bool.not_eq_true']
  refine Bool.eq_false_iff.mpr fun hname => ?_
  have hblank := not_isBlank_of_isName hname
  rw [h x hx] at hblank
  cases hblank

/-- A word that ends in front of the end of a line ends in the line. -/
theorem exists_append_of_oneLine {u word X : Text} (hrest : ∀ x ∈ rest.head?, x = '\n') (hword : '\n' ∉ word)
    (h : u ++ rest = word ++ X) : ∃ z, u = word ++ z ∧ z ++ rest = X := by
  rcases List.append_eq_append_iff.mp h with ⟨z, rfl, hz⟩ | ⟨z, rfl, hz⟩
  · cases z with
    | nil => exact ⟨[], by simp, by simpa using hz⟩
    | cons x z =>
      rw [hz] at hrest
      exact absurd (hrest x rfl ▸ by simp) hword
  · exact ⟨z, rfl, hz.symm⟩

/-- Other code does not start like a statement. -/
theorem CodeLine.ne_statement (line : CodeLine) (hink : ∃ x ∈ line.text, x.isBlank = false)
    (hrest : ∀ x ∈ rest.head?, x = '\n') {word : String} (hmem : word ∈ ["import", "export"]) {l space X : Text}
    (hl : ∀ x ∈ l, x.isBlank = true) (hne : space ≠ []) (hspace : ∀ x ∈ space, x.isBlank = true) :
    line.text ++ rest ≠ l ++ (word.toList ++ (space ++ X)) := by
  intro htext
  obtain ⟨hword, hne', hname⟩ : '\n' ∉ word.toList ∧ word.toList ≠ [] ∧ ∀ x ∈ word.toList, x.isName = true := by
    rcases List.mem_pair.mp hmem with rfl | rfl <;> decide
  rcases List.append_eq_append_iff.mp htext with ⟨z, rfl, -⟩ | ⟨u, htext, hu⟩
  · obtain ⟨x, hx, hblank⟩ := hink
    rw [hl x (List.mem_append_left z hx)] at hblank
    cases hblank
  · -- the word stands by itself in the line
    obtain ⟨z, rfl, hz⟩ := exists_append_of_oneLine hrest hword hu.symm
    refine line.wordless word hmem (Text.mem_runs_iff.mpr ⟨hne', hname, l, z, htext, ?_, ?_⟩)
    · exact isName_eq_false_of_isBlank fun x hx => hl x (List.mem_of_getLast? hx)
    · refine isName_eq_false_of_isBlank fun x hx => hspace x ?_
      have hfirst : (z ++ rest).head? = some x := by rw [List.head?_append, hx]; rfl
      rw [hz, List.head?_append_of_ne_nil _ hne] at hfirst
      exact List.mem_of_mem_head? hfirst

/-- From a call in a line without quotation marks, blanks and brackets lead up to the quotation mark in what follows the
line. -/
theorem mem_head_of_call {c r R word : Text} {q : Char} (hrest : ∀ x ∈ rest.head?, x = '\n') (hword : '\n' ∉ word)
    (hc : Quoteless c) (hr : ∀ x ∈ r, isOpening x = true) (hq : isQuote q = true)
    (h : c ++ rest = word ++ (r ++ q :: R)) : q ∈ (rest.dropWhile isOpening).head? := by
  obtain ⟨y, rfl, hy⟩ := exists_append_of_oneLine hrest hword h
  obtain ⟨z, rfl, rfl⟩ := exists_append_of_quoteless (fun x hx => hc x (List.mem_append_right word hx)) hq hy
  rw [List.dropWhile_append_of_pos fun x hx => hr x (List.mem_append_right y hx),
    List.dropWhile_cons_of_neg (by simp [isOpening_of_isQuote hq])]
  rfl

/-- No match starts in a line of other code if no blanks and brackets behind it lead up to a quotation mark. -/
theorem CodeLine.unmatched (line : CodeLine) (hink : ∃ x ∈ line.text, x.isBlank = false)
    (hb : ∀ x ∈ b, x.isBlank = true) (hrest : ∀ x ∈ rest.head?, x = '\n')
    (hquote : ∀ x ∈ (rest.dropWhile isOpening).head?, isQuote x = false) :
    importPattern.Unmatched pre (b ++ line.text) rest := by
  intro a c hac hc
  refine Option.eq_none_iff_forall_ne_some.mpr fun m hm => ?_
  obtain ⟨lead, q, s, q', post, hsplit, hlead, hq, -⟩ := exists_of_matchAt_importPattern hm
  rcases importLead_takes hlead with ⟨hline, word, hmem, b', space, r, rfl, hb', hne, hspace⟩ | ⟨word, hmem, r, rfl, hr⟩
  · obtain ⟨l, hl, htext⟩ := exists_blanks_of_statement (X := space ++ (r ++ q :: (s ++ q' :: post))) hmem hb
      line.oneLine hline hac hb' (by simpa using hsplit)
    exact line.ne_statement hink hrest hmem hl hne hspace htext
  · have hword : '\n' ∉ word.toList := by rcases List.mem_pair.mp hmem with rfl | rfl <;> decide
    have hquoteless := (quoteless_of_isBlank hb).append line.quoteless
    rw [hac] at hquoteless
    have hfirst := mem_head_of_call hrest hword (fun x hx => hquoteless x (List.mem_append_right a hx)) hr hq
      (hsplit.trans (List.append_assoc _ _ _))
    rw [hquote q hfirst] at hq
    cases hq

/-! ## One line -/

namespace SourceLine

/-- What matches say of specifiers. -/
def refsOf (ms : List Match) : List ImportRef :=
  ms.filterMap fun m => (m.group? 1).map fun g => ⟨g.text, g.start⟩

/-- An import adds its specifier. The search goes on behind it, within the line. -/
theorem refsOf_reference (form : ImportForm) (mark : QuoteMark) (name : ModuleName) (hpre : AtLineStart pre)
    (hb : ∀ x ∈ b, x.isBlank = true) (rest : Text) :
    ∃ pre', ¬ AtLineStart pre' ∧
      Text.byteSize pre' = Text.byteSize (pre ++ b) + Text.byteSize (reference form mark name).text ∧
      refsOf (importPattern.findAllBehind pre (b ++ ((reference form mark name).text ++ rest))) =
        ⟨name.text, Text.byteSize (pre ++ b) + Text.byteSize form.lead + 1⟩ ::
          refsOf (importPattern.findAllBehind pre' rest) := by
  obtain ⟨u, lead, hlead, hfront, hquoteless, hbraces, htakes⟩ := form.startsIn hpre hb
  have hmark : isQuote mark.char = true := by cases mark <;> rfl
  have hone : mark.char.utf8Size = 1 := by cases mark <;> rfl
  obtain ⟨m, hm, hgroup, hstop⟩ := matchAt_importPattern
    (htakes (mark.char :: (name.text ++ mark.char :: (form.tail ++ rest)))) hquoteless hbraces hmark hmark name.ne
    name.plain
  -- the place behind the match
  let stop := pre ++ u ++ (lead ++ mark.char :: (name.text ++ [mark.char]))
  have hstopline : ¬ AtLineStart stop := by
    have hlast := not_atLineStart_append (t := [mark.char]) (by simp) (by cases mark <;> decide)
      (pre ++ u ++ (lead ++ mark.char :: name.text))
    simpa [stop] using hlast
  have hsize : Text.byteSize b + Text.byteSize form.lead = Text.byteSize u + Text.byteSize lead := by
    rw [← Text.byteSize_append, hlead, Text.byteSize_append]
  have hpos : Text.byteSize (pre ++ u ++ lead ++ [mark.char]) =
      Text.byteSize (pre ++ b) + Text.byteSize form.lead + 1 := by
    simp only [Text.byteSize_append, Text.byteSize_singleton, hone]
    omega
  have hsplit : b ++ ((reference form mark name).text ++ rest) =
      u ++ ((lead ++ mark.char :: (name.text ++ [mark.char])) ++ (form.tail ++ rest)) := by
    rw [text, List.append_assoc, ← List.append_assoc b, hlead]
    simp
  refine ⟨stop ++ form.tail, ?_, ?_, ?_⟩
  · rcases form.tail_eq with htail | htail <;> rw [htail] <;> exact not_atLineStart_append (by decide) (by decide) _
  · simp only [stop, text, Text.byteSize_append, Text.byteSize_cons, Text.byteSize_nil]
    omega
  · rw [hsplit, findAllBehind_append (hfront _), findAllBehind_match (by simp) hm hstop,
      findAllBehind_append (form.unmatched_tail hstopline), refsOf, List.filterMap_cons, hgroup, Option.map_some, hpos]
    rfl

/-! ## All lines -/

theorem head_behindLine (ls : List SourceLine) : ∀ x ∈ (behindLine ls).head?, x = '\n' := by
  cases ls with
  | nil => rintro _ ⟨⟩
  | cons l ls => rintro _ ⟨⟩; rfl

theorem exists_lead (form : ImportForm) : ∃ c t, form.lead = c :: t ∧ isOpening c = false ∧ isQuote c = false := by
  cases form <;> exact ⟨_, _, rfl, by decide, by decide⟩

/-- Blanks and brackets lead up to no quotation mark at the start of lines, nor behind the end of a line. -/
theorem head_dropWhile_join (ls : List SourceLine) :
    (∀ x ∈ ((join ls).dropWhile isOpening).head?, isQuote x = false) ∧
      ∀ x ∈ ((behindLine ls).dropWhile isOpening).head?, isQuote x = false := by
  induction ls with
  | nil => exact ⟨by rintro _ ⟨⟩, by rintro _ ⟨⟩⟩
  | cons l ls ih =>
    have hjoin : ∀ x ∈ ((join (l :: ls)).dropWhile isOpening).head?, isQuote x = false := by
      rw [join_cons]
      cases l with
      | reference form mark name =>
        obtain ⟨c, t, hlead, hopening, hquote⟩ := exists_lead form
        rw [text, hlead, List.cons_append, List.cons_append, List.dropWhile_cons_of_neg (by simp [hopening])]
        rintro _ ⟨⟩
        exact hquote
      | code line =>
        rw [text, List.dropWhile_append]
        split
        · exact ih.2
        · rename_i hne
          rw [List.head?_append_of_ne_nil _ (by simpa using hne)]
          exact fun x hx => line.quoteless x ((List.dropWhile_sublist _).subset (List.mem_of_mem_head? hx))
    exact ⟨hjoin, hjoin⟩

theorem findAllBehind_of_isBlank (hrest : ∀ x ∈ rest, x.isBlank = true) :
    importPattern.findAllBehind pre rest = [] := by
  have hnone : importPattern.Unmatched pre rest [] := fun a c hac _ =>
    matchAt_eq_none_of_isBlank fun x hx => hrest x (by rw [hac]; simpa using Or.inr hx)
  have happend := findAllBehind_append hnone
  rw [List.append_nil] at happend
  rw [happend, findAllBehind, findAllFrom, if_neg (Nat.lt_irrefl _)]
  exact Option.toList_eq_nil_iff.mpr (matchAt_eq_none_of_isBlank (List.forall_mem_nil _))

/-- Behind blanks at the start of a line, the lines import what they are said to. -/
theorem refsOf_join (ls : List SourceLine) (hpre : AtLineStart pre) (hb : ∀ x ∈ b, x.isBlank = true) :
    refsOf (importPattern.findAllBehind pre (b ++ join ls)) = refsFrom (Text.byteSize (pre ++ b)) ls := by
  induction ls generalizing pre b with
  | nil =>
    rw [findAllBehind_of_isBlank (by simpa [join, Text.join] using hb)]
    rfl
  | cons l ls ih =>
    -- within a line, all that comes from the further lines comes behind the line feed
    have hbehind {pre : Text} (hpre : ¬ AtLineStart pre) :
        refsOf (importPattern.findAllBehind pre (behindLine ls)) = refsFrom (Text.byteSize pre + 1) ls := by
      cases ls with
      | nil =>
        rw [behindLine, findAllBehind_of_isBlank (List.forall_mem_nil _)]
        rfl
      | cons l' ls =>
        have hbreak : importPattern.Unmatched pre ['\n'] (join (l' :: ls)) :=
          unmatched_singleton (matchAt_eq_none_of_head hpre (by rintro _ ⟨⟩; decide))
        have hlines : refsOf (importPattern.findAllBehind (pre ++ ['\n']) ([] ++ join (l' :: ls))) =
            refsFrom (Text.byteSize (pre ++ ['\n'] ++ [])) (l' :: ls) :=
          ih (atLineStart_concat pre) (List.forall_mem_nil _)
        rw [List.append_nil, List.nil_append, ← findAllBehind_append hbreak, Text.byteSize_append] at hlines
        exact hlines
    rw [join_cons]
    cases l with
    | reference form mark name =>
      obtain ⟨pre', hpre', hsize, hrefs⟩ := refsOf_reference form mark name hpre hb (behindLine ls)
      rw [hrefs, hbehind hpre', hsize, refsFrom]
    | code line =>
      by_cases hink : ∃ x ∈ line.text, x.isBlank = false
      · have hline : importPattern.Unmatched pre (b ++ line.text) (behindLine ls) :=
          line.unmatched hink hb (head_behindLine ls) (head_dropWhile_join ls).2
        obtain ⟨x, hx, -⟩ := hink
        have hend : ¬ AtLineStart (pre ++ (b ++ line.text)) := by
          rw [← List.append_assoc]
          exact not_atLineStart_append (List.ne_nil_of_mem hx) line.oneLine _
        rw [text, ← List.append_assoc, findAllBehind_append hline, hbehind hend, refsFrom]
        simp only [Text.byteSize_append, Nat.add_assoc]
      · have hblank : ∀ x ∈ b ++ line.text, x.isBlank = true :=
          List.forall_mem_append.mpr ⟨hb, fun x hx => by simpa using fun h => hink ⟨x, hx, h⟩⟩
        cases ls with
        | nil =>
          rw [behindLine, List.append_nil, text, findAllBehind_of_isBlank hblank]
          rfl
        | cons l' ls =>
          -- the blank line goes to the blanks in front of the next one
          have hblanks : ∀ x ∈ b ++ line.text ++ ['\n'], x.isBlank = true :=
            List.forall_mem_append.mpr ⟨hblank, by decide⟩
          have hsplit : b ++ ((code line).text ++ behindLine (l' :: ls)) =
              b ++ line.text ++ ['\n'] ++ join (l' :: ls) := by
            simp [text, behindLine]
          have hpos : Text.byteSize (pre ++ (b ++ line.text ++ ['\n'])) =
              Text.byteSize (pre ++ b) + Text.byteSize line.text + 1 := by
            simp only [Text.byteSize_append, Nat.add_assoc]
            rfl
          rw [hsplit, ih hpre hblanks, refsFrom, hpos]

/-- **Imports line by line.** A source whose lines are imports in the common forms, or other code without quotation
marks and the words `import` and `export`, imports the specifiers of these lines, in their order and each at the place
where it starts, whichever lines are next to each other. -/
theorem imports_join (ls : List SourceLine) : imports (join ls) = refsFrom 0 ls := by
  rw [imports, findAll_eq_behind]
  exact refsOf_join ls atLineStart_nil (List.forall_mem_nil _)

/-- Lines of several forms, with code and a blank line between them. -/
theorem imports_join_page :
    let content :=
      ("import React from 'react';\nimport \x7b memo, useState \x7d from \"react\";\nlet open = f(1)\n\n" ++
      "export * as rows from './rows';\nconst fs = require('fs');").toList
    (imports content).map (fun r => (r.specifier, r.offset)) =
      [("react".toList, 19), ("react".toList, 59), ("./rows".toList, 107), ("fs".toList, 136)] := by
  intro content
  let ls : List SourceLine := [
    reference (.single ⟨"React".toList, by decide⟩) .single ⟨"react".toList, by decide, by decide⟩,
    reference (.named ⟨"memo, useState".toList, by decide⟩) .double ⟨"react".toList, by decide, by decide⟩,
    code ⟨"let open = f(1)".toList, by decide, (by decide : ∀ x ∈ _, isQuote x = false), by decide +kernel⟩,
    code ⟨[], by decide, List.forall_mem_nil _, by decide +kernel⟩,
    reference (.exportAs ⟨"rows".toList, by decide⟩) .single ⟨"./rows".toList, by decide, by decide⟩,
    reference (.required ⟨"fs".toList, by decide⟩) .single ⟨"fs".toList, by decide, by decide⟩]
  have htext : join ls = content := by decide +kernel
  rw [← htext, imports_join ls]
  decide +kernel

end SourceLine

end Checkup
