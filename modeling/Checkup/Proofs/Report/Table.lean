import Checkup.Proofs.Report.Listing
import Checkup.Proofs.Report.TableRow

/-!
# Tables of the report in Markdown

The report lists findings, dependency issues and advisories in tables, an item on each row (`itemTables`). Some values
of an item are escaped for a cell, and others stand in its row as they are.

* `Item.FillsRow`: a row has a cell for each column, and what counts in it stands in the values of the item.
* `ItemTable.lines_text`: the lines of a table are those of its rows, below two of its head.
* `ItemTable.fitsIn_iff`: a row is a single line with as many cells as the header if no line feed and no bar is in the
  way.
* `itemTables_standIn`: the tables stand in the report, between blank lines.
* `markdownReport_tables`: a row breaks the table if and only if a value that stands as it is has a line feed or a bar
  that no backslash holds, or a value that is escaped has a bar with a backslash in front.
-/

namespace Checkup.Markdown

/-- A thing that a table lists: its row, and the values in it that stand as they are and those that are escaped. -/
structure Item where
  row : String
  raw : List String
  escaped : List String

/-- A finding as an item. -/
def findingItem (f : Finding) : Item :=
  ⟨findingRow f, f.location.text :: f.ruleId :: f.referenceUrl.toList, f.message :: f.help.toList⟩

/-- A dependency issue as an item. -/
def issueItem (i : DependencyIssue) : Item := ⟨issueRow i, i.package.toList, [i.message]⟩

/-- An advisory as an item. -/
def vulnerabilityItem (v : Vulnerability) : Item :=
  ⟨vulnerabilityRow v, v.package :: if v.referenceUrl.isEmpty then [] else [v.referenceUrl],
    [v.title, v.vulnerableVersions]⟩

namespace Item

/-- The line feeds in the values that stand as they are. -/
def lineFeeds (i : Item) : Nat := (i.raw.map fun t => t.toList.count '\n').sum

/-- The bars that end a cell where no cell ends: loose ones, and those that lose their backslash to another one. -/
def strayBars (i : Item) : Nat :=
  (i.raw.map fun t => looseBars t.toList).sum + (i.escaped.map fun t => heldBars t.toList).sum

/-- Whether the row has a cell for each column, and what counts in its cells is what counts in the values. -/
def FillsRow (columns : List String) (i : Item) : Prop :=
  ∃ cs, i.row = Markdown.row cs ∧ cs.length = columns.length ∧
    ∀ {bar : Nat} {f g : Text → Nat}, Sums bar f → (∀ t, f (cell t).toList = g t.toList) →
      (cs.map fun c => f c.toList).sum = (i.raw.map fun t => f t.toList).sum + (i.escaped.map fun t => g t.toList).sum

/-- Whether the row is a single line with as many cells as the header of the table. -/
def FitsIn (columns : List String) (i : Item) : Prop :=
  ∃ line, Text.lines i.row.toList = [line] ∧ (cells line).length = (cells (rowLine columns)).length

end Item

/-! ## The rows of items -/

/-- The cell of the rule that a finding is about. -/
def ruleCell (f : Finding) : String :=
  match f.referenceUrl with
  | some url => link (code f.ruleId) url
  | none => code f.ruleId

/-- The cell of the message of a finding, with what to do. -/
def messageCell (f : Finding) : String :=
  cell f.message ++ match f.help with
    | some text => "<br>💡 " ++ cell text
    | none => ""

theorem findingRow_eq (f : Finding) : findingRow f = row [code f.location.text, ruleCell f, messageCell f] := rfl

namespace Sums

variable {bar : Nat} {n m : Text → Nat}

theorem ruleCell (h : Sums bar n) (f : Finding) :
    n (ruleCell f).toList = n f.ruleId.toList + (f.referenceUrl.toList.map fun t => n t.toList).sum := by
  unfold Markdown.ruleCell
  cases f.referenceUrl with
  | none => exact h.code _
  | some url => exact (h.link _ _).trans (congrArg (· + _) (h.code _))

theorem messageCell (h : Sums bar n) (hcell : ∀ t, n (cell t).toList = m t.toList) (f : Finding) :
    n (messageCell f).toList = m f.message.toList + (f.help.toList.map fun t => m t.toList).sum := by
  rw [Markdown.messageCell, String.toList_append]
  cases f.help with
  | none => simp [hcell]
  | some text =>
    have htext : ("<br>💡 " ++ cell text).toList = '<' :: ("br>💡 ".toList ++ (cell text).toList) := by
      rw [String.toList_append]
      rfl
    dsimp only
    rw [htext, h.append_cons _ _ _ (by decide), h.plain_append (by decide), hcell, hcell]
    rfl

end Sums

theorem findingItem_fillsRow (f : Finding) : (findingItem f).FillsRow ["Location", "Rule", "Message"] := by
  unfold findingItem
  refine ⟨_, findingRow_eq f, by simp only [List.length_cons], fun {bar n m} hn hm => ?_⟩
  simp only [List.map_cons, List.map_nil, List.sum_cons, List.sum_nil, hn.code, hn.ruleCell, hn.messageCell hm]
  omega

theorem label_plain (s : Severity) : ∀ x ∈ s.label.toList, x ∉ tableMarks := by
  cases s <;> decide

theorem kind_plain (k : DependencyIssue.Kind) : ∀ x ∈ k.label.toList, x ∉ tableMarks := by
  cases k <;> decide

theorem name_plain (s : VulnerabilitySeverity) : ∀ x ∈ s.name.toList, x ∉ tableMarks := by
  cases s <;> decide

theorem issueRow_eq (i : DependencyIssue) :
    issueRow i = row [i.severity.label, i.kind.label, (i.package.map code).getD "", cell i.message] := rfl

theorem vulnerabilityRow_eq (v : Vulnerability) : vulnerabilityRow v = row [v.severity.name, code v.package,
    if v.referenceUrl.isEmpty then cell v.title else link (cell v.title) v.referenceUrl,
    cell v.vulnerableVersions] := rfl

theorem issueItem_fillsRow (i : DependencyIssue) : (issueItem i).FillsRow ["Severity", "Kind", "Package", "Issue"] := by
  unfold issueItem
  refine ⟨_, issueRow_eq i, by simp only [List.length_cons], fun {bar n m} hn hm => ?_⟩
  have hpackage : n ((i.package.map code).getD "").toList = (i.package.toList.map fun t => n t.toList).sum := by
    cases i.package with
    | none => exact hn.nil
    | some p => exact hn.code p
  simp only [List.map_cons, List.map_nil, List.sum_cons, List.sum_nil, hn.of_plain (label_plain i.severity),
    hn.of_plain (kind_plain i.kind), hpackage, hm]
  omega

theorem vulnerabilityItem_fillsRow (v : Vulnerability) :
    (vulnerabilityItem v).FillsRow ["Severity", "Package", "Advisory", "Versions"] := by
  unfold vulnerabilityItem
  refine ⟨_, vulnerabilityRow_eq v, by simp only [List.length_cons], fun {bar n m} hn hm => ?_⟩
  have htitle : n (if v.referenceUrl.isEmpty then cell v.title else link (cell v.title) v.referenceUrl).toList =
      m v.title.toList + ((if v.referenceUrl.isEmpty then [] else [v.referenceUrl]).map fun t => n t.toList).sum := by
    split
    · exact hm v.title
    · exact (hn.link _ _).trans (congrArg (· + _) (hm _))
  simp only [List.map_cons, List.map_nil, List.sum_cons, List.sum_nil,
    hn.of_plain (name_plain v.severity), hn.code, htitle, hm]
  omega

namespace Item

variable {columns : List String} {i : Item}

/-- A row has the cells of the header and one more for each stray bar, and a line for each line feed. -/
theorem FillsRow.exists_line (h : i.FillsRow columns) (hne : columns ≠ []) :
    ∃ line, i.row.toList = line ++ ['\n'] ∧ line.count '\n' = i.lineFeeds ∧ line.getLast? = some '|' ∧
      (cells line).length = columns.length + 2 + i.strayBars := by
  obtain ⟨cs, hrow, hlength, hcells⟩ := h
  have hcs : cs ≠ [] := fun hnil => hne (List.length_eq_zero_iff.mp (by rw [← hlength, hnil, List.length_nil]))
  have hcount := hcells (g := fun _ => 0) sums_count count_cell
  refine ⟨rowLine cs, by rw [hrow, toList_row], ?_, getLast?_rowLine cs, ?_⟩
  · rw [count_rowLine hcs, hcount, lineFeeds]
    simp
  · rw [length_cells_rowLine hcs, hcells sums_looseBars looseBars_cell, hlength, strayBars]

end Item

/-! ## Tables -/

/-- A table of items. -/
structure ItemTable where
  columns : List String
  items : List Item
  columns_ne : columns ≠ []
  plain : ∀ c ∈ columns, c.toList.count '\n' = 0 ∧ looseBars c.toList = 0
  fillsRow : ∀ i ∈ items, i.FillsRow columns

/-- The findings that a section shows. -/
def findingTable (s : Section) : ItemTable where
  columns := ["Location", "Rule", "Message"]
  items := s.rows.map findingItem
  columns_ne := List.cons_ne_nil _ _
  plain := by decide
  fillsRow := List.forall_mem_map.mpr fun f _ => findingItem_fillsRow f

/-- The dependency issues. -/
def dependencyTable (r : ScanResult) : ItemTable where
  columns := ["Severity", "Kind", "Package", "Issue"]
  items := r.dependencyIssues.map issueItem
  columns_ne := List.cons_ne_nil _ _
  plain := by decide
  fillsRow := List.forall_mem_map.mpr fun i _ => issueItem_fillsRow i

/-- The advisories. -/
def securityTable (s : SecuritySummary) : ItemTable where
  columns := ["Severity", "Package", "Advisory", "Versions"]
  items := s.vulnerabilities.map vulnerabilityItem
  columns_ne := List.cons_ne_nil _ _
  plain := by decide
  fillsRow := List.forall_mem_map.mpr fun v _ => vulnerabilityItem_fillsRow v

namespace ItemTable

variable (t : ItemTable)

/-- The lines of the table, with their line feeds. -/
def text : Text := (tableHead t.columns).toList ++ t.items.flatMap fun i => i.row.toList

theorem rowLine_unbroken : '\n' ∉ rowLine t.columns := by
  rw [← List.count_eq_zero, count_rowLine t.columns_ne, List.sum_eq_zero_iff]
  exact List.forall_mem_map.mpr fun c hc => (t.plain c hc).1

/-- The header has a cell for each column, and one on both sides. -/
theorem length_header : (cells (rowLine t.columns)).length = t.columns.length + 2 := by
  have hsum : (t.columns.map fun c => looseBars c.toList).sum = 0 :=
    List.sum_eq_zero_iff.mpr (List.forall_mem_map.mpr fun c hc => (t.plain c hc).2)
  rw [length_cells_rowLine t.columns_ne, hsum]

/-- The lines of the table are those of its rows, below its header and the line under it. -/
theorem lines_text : Text.lines t.text =
    rowLine t.columns :: ruleLine t.columns :: t.items.flatMap fun i => Text.lines i.row.toList := by
  have hrows (items : List Item) (hitems : ∀ i ∈ items, i.FillsRow t.columns) :
      Text.lines (items.flatMap fun i => i.row.toList) = items.flatMap fun i => Text.lines i.row.toList := by
    induction items with
    | nil => rfl
    | cons i items ih =>
      obtain ⟨hi, hitems⟩ := List.forall_mem_cons.mp hitems
      obtain ⟨line, hline, -⟩ := hi.exists_line t.columns_ne
      have hends : Text.EndsLine i.row.toList := by simp [hline, Text.EndsLine]
      rw [List.flatMap_cons, List.flatMap_cons, Text.lines_append hends, ih hitems]
  rw [text, toList_tableHead, List.append_assoc, List.append_assoc, List.append_assoc, List.singleton_append,
    List.singleton_append, lines_barred t.rowLine_unbroken (getLast?_rowLine _),
    lines_barred (ruleLine_unbroken _) (getLast?_ruleLine _), hrows t.items t.fillsRow]

variable {t} {i : Item}

theorem length_lines_row (h : i ∈ t.items) : (Text.lines i.row.toList).length = i.lineFeeds + 1 := by
  obtain ⟨line, hline, hcount, -⟩ := (t.fillsRow i h).exists_line t.columns_ne
  have hends : Text.EndsLine i.row.toList := by simp [hline, Text.EndsLine]
  rw [hends.length_lines, hline, List.count_append, hcount, List.count_singleton_self]

/-- A row is a single line with the cells of the header if and only if it has no stray bar and no line feed. -/
theorem fitsIn_iff (h : i ∈ t.items) : i.FitsIn t.columns ↔ i.lineFeeds = 0 ∧ i.strayBars = 0 := by
  have hlength := t.length_lines_row h
  obtain ⟨line, hline, hcount, hbar, hcells⟩ := (t.fillsRow i h).exists_line t.columns_ne
  have hone (hfeeds : i.lineFeeds = 0) : Text.lines i.row.toList = [line] := by
    rw [hline]
    exact lines_barred (List.count_eq_zero.mp (hcount.trans hfeeds)) hbar []
  constructor
  · rintro ⟨line', hlines, hfits⟩
    have hfeeds : i.lineFeeds = 0 := by
      rw [hlines, List.length_singleton] at hlength
      omega
    obtain rfl : line = line' := List.singleton_inj.mp ((hone hfeeds).symm.trans hlines)
    rw [t.length_header] at hfits
    omega
  · rintro ⟨hfeeds, hstray⟩
    exact ⟨line, hone hfeeds, by rw [t.length_header, hcells, hstray, Nat.add_zero]⟩

end ItemTable

/-! ## The report -/

/-- The tables of the report that list items. -/
def itemTables (v : ReportView) : List ItemTable :=
  v.sections.map findingTable ++
    ((if v.result.dependencyIssues.isEmpty then [] else [dependencyTable v.result]) ++
      if v.result.security.total = 0 then [] else [securityTable v.result.security])

/-- Whether the table stands in a text, between blank lines. -/
def ItemTable.StandsIn (t : ItemTable) (report : String) : Prop :=
  "\n\n".toList ++ (t.text ++ ['\n']) <:+: report.toList

theorem ItemTable.standsIn_of {t : ItemTable} {rows : List String} (hrows : rows = t.items.map Item.row)
    (lead behind : String) :
    t.StandsIn (lead ++ "\n\n" ++ tableHead t.columns ++ String.join rows ++ ("\n" ++ behind)) := by
  refine ⟨lead.toList, behind.toList, ?_⟩
  simp [ItemTable.text, hrows, String.toList_append, String.toList_join, List.flatMap_map]

theorem findingTable_standsIn (s : Section) : (findingTable s).StandsIn (Markdown.section s) := by
  have hrows : s.rows.map findingRow = (findingTable s).items.map Item.row := by
    simp [findingTable, findingItem]
  have hmore : ∃ behind, (if s.more = 0 then ""
      else s!"\n*...and {s.more} more {s.severity.lowerLabel} findings*\n") ++ "\n" = "\n" ++ behind := by
    split
    · exact ⟨"", rfl⟩
    · refine ⟨"*...and " ++ toString s.more ++ " more " ++ s.severity.lowerLabel ++ " findings*\n" ++ "\n", ?_⟩
      simp only [← String.append_assoc]
      rfl
  obtain ⟨behind, hbehind⟩ := hmore
  have hlead : s!"### {signed s.severity} ({s.size})\n\n" = s!"### {signed s.severity} ({s.size})" ++ "\n\n" := by
    simp only [String.append_assoc]
    rfl
  unfold Markdown.section
  dsimp only
  rw [String.append_assoc, hbehind, hlead]
  exact ItemTable.standsIn_of hrows _ behind

theorem dependencyTable_standsIn {r : ScanResult} (h : r.dependencyIssues.isEmpty = false) :
    (dependencyTable r).StandsIn (dependencies r) := by
  have hrows : r.dependencyIssues.map issueRow = (dependencyTable r).items.map Item.row := by
    simp [dependencyTable, issueItem]
  rw [dependencies, if_neg (by simp [h])]
  exact ItemTable.standsIn_of hrows "## Dependencies" ""

theorem securityTable_standsIn {s : SecuritySummary} (h : s.total ≠ 0) : (securityTable s).StandsIn (security s) := by
  have hrows : s.vulnerabilities.map vulnerabilityRow = (securityTable s).items.map Item.row := by
    simp [securityTable, vulnerabilityItem]
  have hlead : s!"## Security\n\n{s.critical} critical, {s.high} high, {s.moderate} moderate, {s.low} low\n\n" =
      s!"## Security\n\n{s.critical} critical, {s.high} high, {s.moderate} moderate, {s.low} low" ++ "\n\n" := by
    simp only [String.append_assoc]
    rfl
  unfold security
  rw [if_neg h, hlead]
  exact ItemTable.standsIn_of hrows _ ""

theorem ItemTable.StandsIn.trans {t : ItemTable} {part report : String} (h : t.StandsIn part)
    (hpart : part.toList <:+: report.toList) : t.StandsIn report := List.IsInfix.trans h hpart

theorem infix_join {part : String} {parts : List String} (h : part ∈ parts) :
    part.toList <:+: (String.join parts).toList := by
  rw [String.toList_join, List.flatMap]
  exact List.infix_of_mem_flatten (List.mem_map_of_mem h)

/-- The tables stand in the report. -/
theorem itemTables_standIn (time : String) (v : ReportView) :
    ∀ t ∈ itemTables v, t.StandsIn (markdownReport time v) := by
  intro t ht
  rw [markdownReport_eq]
  simp only [itemTables, List.mem_append, List.mem_map] at ht
  rcases ht with ⟨s, hs, rfl⟩ | ht | ht
  · have hsection : (findingTable s).StandsIn (String.join (v.sections.map Markdown.section)) :=
      (findingTable_standsIn s).trans (infix_join (List.mem_map_of_mem hs))
    have hfindings : (String.join (v.sections.map Markdown.section)).toList <:+:
        ("## Findings\n\n" ++ (noSections v ++ String.join (v.sections.map Markdown.section))).toList := by
      rw [← String.append_assoc, String.toList_append]
      exact (List.suffix_append _ _).isInfix
    exact (hsection.trans hfindings).trans (infix_join (by simp))
  · split at ht
    · cases ht
    · rename_i hnone
      rw [List.mem_singleton.mp ht]
      exact (dependencyTable_standsIn (by simpa using hnone)).trans (infix_join (by simp))
  · split at ht
    · cases ht
    · rename_i htotal
      rw [List.mem_singleton.mp ht]
      exact (securityTable_standsIn htotal).trans (infix_join (by simp))

/-- **The tables of the report.** Each table of findings, dependency issues or advisories stands in the report between
blank lines, and its lines are those of its rows, in the order of the items, below two of its head. The row of an item
has a line break more than it should for each line feed in a value that stands as it is, and a cell more than the
header for each bar that no backslash holds in such a value, and each bar with an odd number of backslashes in front
in a value that is escaped. So it is a single line with the cells of the header if and only if there is none of these,
and if so for all items, the table has a row for each. -/
theorem markdownReport_tables (time : String) (v : ReportView) : ∀ t ∈ itemTables v,
    t.StandsIn (markdownReport time v) ∧
    Text.lines t.text = rowLine t.columns :: ruleLine t.columns :: t.items.flatMap (fun i => Text.lines i.row.toList) ∧
    (∀ i ∈ t.items, (Text.lines i.row.toList).length = i.lineFeeds + 1 ∧
      ∃ line, i.row.toList = line ++ ['\n'] ∧ (cells line).length = (cells (rowLine t.columns)).length + i.strayBars) ∧
    (∀ i ∈ t.items, i.FitsIn t.columns ↔ i.lineFeeds = 0 ∧ i.strayBars = 0) ∧
    ((∀ i ∈ t.items, i.FitsIn t.columns) → (Text.lines t.text).length = t.items.length + 2) := by
  intro t ht
  refine ⟨itemTables_standIn time v t ht, t.lines_text, fun i hi => ⟨t.length_lines_row hi, ?_⟩,
    fun i hi => t.fitsIn_iff hi, fun hfits => ?_⟩
  · obtain ⟨line, hline, -, -, hcells⟩ := (t.fillsRow i hi).exists_line t.columns_ne
    exact ⟨line, hline, by rw [t.length_header, hcells]⟩
  · have hone : ∀ i ∈ t.items, (Text.lines i.row.toList).length = 1 := fun i hi => by
      rw [t.length_lines_row hi, ((t.fitsIn_iff hi).mp (hfits i hi)).1]
    rw [t.lines_text, List.length_cons, List.length_cons, List.length_flatMap, List.map_congr_left hone,
      List.map_const', List.sum_replicate_nat, Nat.mul_one]

/-- A result with one finding. -/
def oneFinding (f : Finding) : ScanResult :=
  ⟨99, 0, [f], ⟨none, none, false, 1, 0, 0, [], true, none, none⟩, [], ⟨[], 0, 0, 0, 0⟩, []⟩

/-- A message with a bar in it. -/
theorem markdownReport_tables_bar :
    let f : Finding := ⟨.info, "or", "a | b", none, ⟨"a.ts", 1, 1⟩, none⟩
    let t := findingTable ⟨.info, 1, [f], 0⟩
    let v : ReportView := ⟨oneFinding f, none, [], true⟩
    t ∈ itemTables v ∧ (findingItem f).FitsIn t.columns ∧ t.StandsIn (markdownReport "now" v) ∧
      (Text.lines t.text).length = 3 := by
  intro f t v
  have hmem : t ∈ itemTables v := List.mem_append_left _ (List.mem_map_of_mem (List.mem_singleton_self _))
  obtain ⟨hstands, -, -, hfits, hlines⟩ := markdownReport_tables "now" v t hmem
  have hitem : (findingItem f).FitsIn t.columns := (hfits _ (List.mem_singleton_self _)).mpr (by decide +kernel)
  exact ⟨hmem, hitem, hstands, hlines (List.forall_mem_singleton.mpr hitem)⟩

/-- A bar in the path of a file gives the row a cell more than the header has. -/
theorem findingRow_splits :
    let f : Finding := ⟨.info, "r", "m", none, ⟨"app/a|b.tsx", 1, 1⟩, none⟩
    let t := findingTable ⟨.info, 1, [f], 0⟩
    let line := "| \x60app/a|b.tsx:1:1\x60 | \x60r\x60 | m |".toList
    t ∈ itemTables ⟨oneFinding f, none, [], true⟩ ∧ t.items.map Item.row = [findingRow f] ∧
      Text.lines (findingRow f).toList = [line] ∧ (cells line).length = 6 ∧ (cells (rowLine t.columns)).length = 5 := by
  intro f t line
  exact ⟨List.mem_append_left _ (List.mem_map_of_mem (List.mem_singleton_self _)), rfl, by decide +kernel,
    by decide +kernel, by decide +kernel⟩

end Checkup.Markdown
