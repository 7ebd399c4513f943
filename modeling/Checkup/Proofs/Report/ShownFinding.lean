import Checkup.Proofs.Report.Shown

/-!
# How reports show a finding

A finding has a row in the reports for readers and is an object for other programs. What these tell of the finding is
said here by its values.

* `Location.Written`: a location as it stands in a report.
* `Terminal.Shortened`, `Markdown.Escaped`: what is left of a long location, and a text in a cell of a table.
* `Terminal.IsRow`, `Markdown.IsRow`, `Finding.IsObject`: the finding in the three reports.
-/

namespace Checkup

/-- A location as it stands in a report. -/
inductive Location.Written : Location → String → Prop
  | project (line column : Nat) : Written ⟨"", line, column⟩ "(project)"
  | file {path : String} (column : Nat) (h : path ≠ "") : Written ⟨path, 0, column⟩ path
  | place {path : String} {line : Nat} (column : Nat) (h : path ≠ "") (hline : line ≠ 0) :
      Written ⟨path, line, column⟩ s!"{path}:{line}:{column}"

theorem Location.text_written (l : Location) : l.Written l.text := by
  obtain ⟨path, line, column⟩ := l
  unfold text
  by_cases hpath : path = ""
  · subst hpath
    exact .project line column
  · have hpath' : path.isEmpty = false := by simpa using hpath
    by_cases hline : line = 0
    · subst hline
      simpa [hpath'] using Written.file column hpath
    · simpa [hpath', hline] using Written.place column hpath hline

/-! ## On a terminal -/

namespace Terminal

/-- A location on a terminal: of one that is longer than forty characters, only the end. -/
inductive Shortened : String → String → Prop
  | short {t : String} (h : t.length ≤ 40) : Shortened t t
  | long {front back : String} (h : 40 < (front ++ back).length) (hback : back.length = 37) :
      Shortened (front ++ back) ("..." ++ back)

theorem shortLocation_shortened (l : Location) : Shortened l.text (shortLocation l) := by
  unfold shortLocation locationWidth
  dsimp only
  rw [String.length_toList]
  split
  · rename_i hlong
    have hsplit : l.text = String.ofList (l.text.toList.take (l.text.length - 37)) ++
        String.ofList (l.text.toList.drop (l.text.length - 37)) := by
      rw [← String.ofList_append, List.take_append_drop, String.ofList_toList]
    have hback : (String.ofList (l.text.toList.drop (l.text.length - 37))).length = 37 := by
      rw [String.length_ofList, List.length_drop, String.length_toList]
      omega
    have hshort := Shortened.long (hsplit ▸ hlong) hback
    rw [← hsplit] at hshort
    rw [String.ofList_append]
    exact hshort
  · rename_i hshort
    exact .short (Nat.not_lt.mp hshort)

/-- The row of a finding: where it is, what is wrong and which rule says so, and below it what to do. -/
def IsRow (useColor : Bool) (f : Finding) (text : String) : Prop :=
  ∃ written place, f.location.Written written ∧ Shortened written place ∧ Shows useColor
    ([.plain "  ", .styled place, .plain s!"  {f.message} ", .styled s!"[{f.ruleId}]", .plain "\n"] ++
      match f.help with
      | none => []
      | some help => [.plain "      ", .styled help, .plain "\n"]) text

theorem finding_isRow (useColor : Bool) (f : Finding) : IsRow useColor f (finding useColor f) := by
  let helpLine := (f.help.map fun help => "      " ++ (Style.dim.paint useColor help ++ "\n")).getD ""
  have hfinding : finding useColor f = "  " ++ (Style.dim.paint useColor (shortLocation f.location) ++
      (s!"  {f.message} " ++ (Style.dim.paint useColor s!"[{f.ruleId}]" ++ ("\n" ++ "")))) ++ helpLine := by
    unfold finding
    cases hhelp : f.help <;> simp [helpLine, hhelp, toString, String.append_assoc]
  refine ⟨_, _, f.location.text_written, shortLocation_shortened f.location, ?_⟩
  rw [hfinding]
  refine (Shows.plain _ (.painted _ _ (.plain _ (.painted _ _ (.plain _ .nil))))).append ?_
  cases hhelp : f.help with
  | none =>
    rw [show helpLine = "" by simp [helpLine, hhelp]]
    exact .nil
  | some help =>
    rw [show helpLine = "      " ++ (Style.dim.paint useColor help ++ "\n") by simp [helpLine, hhelp]]
    exact .plain _ (.painted_line _ _)

end Terminal

/-! ## In Markdown -/

namespace Markdown

/-- The characters of a text in a cell of a table: a bar has a backslash, and a blank stands for a line feed. -/
inductive Escaped : Text → Text → Prop
  | nil : Escaped [] []
  | bar {t u : Text} : Escaped t u → Escaped ('|' :: t) ('\\' :: '|' :: u)
  | lineFeed {t u : Text} : Escaped t u → Escaped ('\n' :: t) (' ' :: u)
  | char {c : Char} {t u : Text} (hbar : c ≠ '|') (hfeed : c ≠ '\n') : Escaped t u → Escaped (c :: t) (c :: u)

theorem cell_escaped (t : String) : Escaped t.toList (cell t).toList := by
  rw [cell, String.toList_ofList]
  induction t.toList with
  | nil => exact .nil
  | cons c t ih =>
    rw [Text.expand, List.flatMap_cons, ← Text.expand]
    by_cases hbar : c = '|'
    · subst hbar
      exact .bar ih
    · by_cases hfeed : c = '\n'
      · subst hfeed
        exact .lineFeed ih
      · rw [if_neg hbar, if_neg hfeed]
        exact .char hbar hfeed ih

/-- The row of a finding: where it is, which rule says so, with a link if there is one, and what is wrong and what to
do. -/
def IsRow (f : Finding) (text : String) : Prop :=
  ∃ place message help : String, f.location.Written place ∧ Escaped f.message.toList message.toList ∧
    (match f.help with
      | none => help = ""
      | some t => ∃ escaped : String, Escaped t.toList escaped.toList ∧ help = s!"<br>💡 {escaped}") ∧
    let rule := match f.referenceUrl with
      | none => s!"\x60{f.ruleId}\x60"
      | some url => s!"[\x60{f.ruleId}\x60]({url})"
    text = s!"| \x60{place}\x60 | {rule} | {message}{help} |\n"

theorem findingRow_isRow (f : Finding) : IsRow f (findingRow f) := by
  let help := (f.help.map fun help => s!"<br>💡 {cell help}").getD ""
  have hrow (place rule message : String) : row [code place, rule, message ++ help] =
      s!"| \x60{place}\x60 | {rule} | {message}{help} |\n" := by
    rw [← String.toList_inj]
    simp [row, code, toString]
  have hlink (url : String) : link (code f.ruleId) url = s!"[\x60{f.ruleId}\x60]({url})" := by
    rw [← String.toList_inj]
    simp [link, code, toString]
  have hfindingRow : findingRow f = row [code f.location.text,
      (f.referenceUrl.map fun url => s!"[\x60{f.ruleId}\x60]({url})").getD (code f.ruleId),
      cell f.message ++ help] := by
    unfold findingRow
    cases hhelp : f.help <;> cases hurl : f.referenceUrl <;> simp [help, hhelp, hlink]
  refine ⟨_, _, help, f.location.text_written, cell_escaped f.message, ?_, ?_⟩
  · cases hhelp : f.help with
    | none => simp [help, hhelp]
    | some t => exact ⟨cell t, cell_escaped t, by simp [help, hhelp]⟩
  · rw [hfindingRow, hrow]
    cases f.referenceUrl <;> rfl

end Markdown

/-! ## For other programs -/

/-- The finding as an object. What it does not say is left out. -/
def Finding.IsObject (f : Finding) (j : Json) : Prop :=
  ∃ name label sign word, f.severity.Called name label sign word ∧ j = .object
    ([("severity", .string name), ("rule_id", .string f.ruleId), ("message", .string f.message)] ++
      (f.help.map fun t => ("help", Json.string t)).toList ++
      [("location", .object [("path", .string f.location.path), ("line", .nat f.location.line),
        ("column", .nat f.location.column)])] ++
      (f.referenceUrl.map fun t => ("reference_url", Json.string t)).toList)

theorem Finding.toJson_isObject (f : Finding) : f.IsObject f.toJson := by
  have hpresent (key : String) (t : Option String) : present key t = (t.map fun t => (key, Json.string t)).toList := by
    cases t <;> rfl
  refine ⟨_, _, _, _, f.severity.called, ?_⟩
  rw [toJson, hpresent, hpresent]
  rfl

end Checkup
