import Mathlib.Algebra.GroupWithZero.Nat
import Checkup.Proofs.Text.Boundary
import Checkup.Proofs.Text.Piece
import Checkup.Report.Markdown

/-!
# Rows of tables and their cells

A reader of Markdown splits the line of a row at its bars, but for those with an odd number of backslashes in front.

* `cells`: the cells of a line. There is one more than loose bars (`length_cells`).
* `looseBars_cell`: one more backslash in front of each bar holds the loose bars, and loosens those that were held.
* `Sums`: numbers that add up over the parts of a text, such as loose bars and line feeds. Those of a row are the ones
  of its cells (`length_cells_rowLine`, `count_rowLine`).
-/

namespace Checkup.Markdown

/-- Whether an odd number of backslashes stands at the end of a text, whose characters are given in reverse. -/
def isHeld (before : Text) : Bool := (before.takeWhile (· == '\\')).length % 2 == 1

/-- The cells of a line whose first cell starts with the reversed characters `cell`. -/
def cellsFrom (cell : Text) : Text → List Text
  | [] => [cell.reverse]
  | c :: t => if c = '|' && !isHeld cell then cell.reverse :: cellsFrom [] t else cellsFrom (c :: cell) t

/-- The cells of a line, with what stands in front of the first bar and behind the last one. -/
def cells (line : Text) : List Text := cellsFrom [] line

/-- How many bars are held by a backslash in front, or how many are not. -/
def barsFrom (wanted held : Bool) : Text → Nat
  | [] => 0
  | c :: t => (if c = '|' && held == wanted then 1 else 0) + barsFrom wanted (c == '\\' && !held) t

/-- The bars that end a cell. -/
def looseBars (t : Text) : Nat := barsFrom false false t

/-- The bars with an odd number of backslashes in front. -/
def heldBars (t : Text) : Nat := barsFrom true false t

variable {s t : Text} {x : Char} {wanted held : Bool}

theorem isHeld_cons (c : Char) (t : Text) : isHeld (c :: t) = (c == '\\' && !isHeld t) := by
  rw [isHeld, List.takeWhile_cons]
  cases hc : c == '\\' with
  | false => rfl
  | true =>
    rw [if_pos rfl, List.length_cons, Bool.true_and, isHeld]
    rcases Nat.mod_two_eq_zero_or_one (t.takeWhile (· == '\\')).length with h | h <;> simp [Nat.add_mod, h]

theorem length_cellsFrom (cell t : Text) : (cellsFrom cell t).length = barsFrom false (isHeld cell) t + 1 := by
  induction t generalizing cell with
  | nil => rfl
  | cons c t ih =>
    rw [cellsFrom, barsFrom]
    by_cases hbar : c = '|' ∧ isHeld cell = false
    · obtain ⟨rfl, hheld⟩ := hbar
      rw [if_pos (by simp [hheld]), List.length_cons, ih, hheld]
      simp [isHeld, Nat.add_comm]
    · rw [if_neg (by simpa using hbar), if_neg (by simpa using hbar), ih, isHeld_cons, Nat.zero_add]

/-- Each loose bar ends a cell. -/
theorem length_cells (line : Text) : (cells line).length = looseBars line + 1 := length_cellsFrom [] line

/-- A character that is neither a bar nor a backslash keeps the parts of a text apart. -/
theorem barsFrom_append_cons (hbar : x ≠ '|') (hslash : x ≠ '\\') (s t : Text) :
    barsFrom wanted held (s ++ x :: t) = barsFrom wanted held s + barsFrom wanted false t := by
  induction s generalizing held with
  | nil => simp [barsFrom, hbar, beq_eq_false_iff_ne.mpr hslash]
  | cons c s ih => rw [List.cons_append, barsFrom, barsFrom, ih, Nat.add_assoc]

theorem toList_cell (t : String) : (cell t).toList =
    t.toList.flatMap fun c => if c = '|' then ['\\', '|'] else if c = '\n' then [' '] else [c] := String.toList_ofList

/-- In a cell just those bars are loose that a backslash held before. -/
theorem looseBars_cell (t : String) : looseBars (cell t).toList = heldBars t.toList := by
  rw [toList_cell]
  have hfrom (held : Bool) (t : Text) : barsFrom false held (t.flatMap fun c => if c = '|' then ['\\', '|']
      else if c = '\n' then [' '] else [c]) = barsFrom true held t := by
    induction t generalizing held with
    | nil => rfl
    | cons c t ih =>
      rw [List.flatMap_cons, barsFrom]
      by_cases hbar : c = '|'
      · rw [if_pos hbar, ← ih]
        cases held <;> simp [barsFrom, hbar]
      · rw [if_neg hbar, ← ih]
        by_cases hfeed : c = '\n'
        · simp [barsFrom, hfeed]
        · simp [barsFrom, hfeed, hbar]
  exact hfrom false t.toList

/-- No line feed is left in a cell. -/
theorem count_cell (t : String) : (cell t).toList.count '\n' = 0 := by
  rw [toList_cell, List.count_eq_zero, List.mem_flatMap]
  rintro ⟨c, -, hc⟩
  split at hc
  · simp at hc
  · split at hc
    · simp at hc
    · rename_i hfeed
      exact hfeed (List.mem_singleton.mp hc).symm

/-! ## Numbers that add up -/

/-- The characters that part rows or cells, or keep from it. -/
def tableMarks : List Char := ['|', '\\', '\n']

/-- Whether a number of a text is the sum of those of its parts, where characters without a role in tables part them,
and a bar in front of a text counts `bar`. -/
structure Sums (bar : Nat) (f : Text → Nat) : Prop where
  nil : f [] = 0
  cons_bar : ∀ t, f ('|' :: t) = bar + f t
  append_cons : ∀ (s t : Text) (x : Char), x ∉ tableMarks → f (s ++ x :: t) = f s + f t

theorem sums_looseBars : Sums 1 looseBars where
  nil := rfl
  cons_bar _ := rfl
  append_cons s t x hx := by
    simp only [tableMarks, List.mem_cons, List.not_mem_nil, or_false, not_or] at hx
    exact barsFrom_append_cons hx.1 hx.2.1 s t

theorem sums_count : Sums 0 (List.count '\n') where
  nil := rfl
  cons_bar t := by rw [List.count_cons_of_ne (by decide), Nat.zero_add]
  append_cons s t x hx := by
    simp only [tableMarks, List.mem_cons, List.not_mem_nil, or_false, not_or] at hx
    rw [List.count_append, List.count_cons_of_ne hx.2.2]

/-- The line of a row. -/
def rowLine (cs : List String) : Text := ("| " ++ " | ".intercalate cs ++ " |").toList

/-- The line between the header of a table and its rows. -/
def ruleLine (columns : List String) : Text :=
  ("|" ++ "|".intercalate (columns.map fun c => String.ofList (List.replicate (c.length + 2) '-')) ++ "|").toList

theorem toList_row (cs : List String) : (row cs).toList = rowLine cs ++ ['\n'] := by
  simp [row, rowLine, String.toList_append]

theorem toList_tableHead (columns : List String) :
    (tableHead columns).toList = (rowLine columns ++ ['\n']) ++ (ruleLine columns ++ ['\n']) := by
  simp [tableHead, ruleLine, String.toList_append, toList_row]

namespace Sums

variable {bar : Nat} {f : Text → Nat}

theorem cons (h : Sums bar f) (hx : x ∉ tableMarks) (t : Text) : f (x :: t) = f t := by
  rw [← List.nil_append (x :: t), h.append_cons [] t x hx, h.nil, Nat.zero_add]

theorem plain_append (h : Sums bar f) (hs : ∀ x ∈ s, x ∉ tableMarks) (t : Text) : f (s ++ t) = f t := by
  induction s with
  | nil => rfl
  | cons x s ih =>
    obtain ⟨hx, hs⟩ := List.forall_mem_cons.mp hs
    rw [List.cons_append, h.cons hx, ih hs]

theorem of_plain (h : Sums bar f) (ht : ∀ x ∈ t, x ∉ tableMarks) : f t = 0 := by
  rw [← List.append_nil t, h.plain_append ht, h.nil]

theorem code (h : Sums bar f) (t : String) : f (code t).toList = f t.toList := by
  have htext : (Markdown.code t).toList = '\x60' :: (t.toList ++ ['\x60']) := by
    show (String.singleton '\x60' ++ t ++ String.singleton '\x60').toList = _
    simp [String.toList_append]
  rw [htext, h.cons (by decide), h.append_cons _ _ _ (by decide), h.nil, Nat.add_zero]

theorem link (h : Sums bar f) (text url : String) : f (link text url).toList = f text.toList + f url.toList := by
  have htext : (Markdown.link text url).toList = '[' :: (text.toList ++ ']' :: '(' :: (url.toList ++ [')'])) := by
    show ("[" ++ text ++ "](" ++ url ++ ")").toList = _
    simp [String.toList_append]
  rw [htext, h.cons (by decide), h.append_cons _ _ _ (by decide), h.cons (by decide), h.append_cons _ _ _ (by decide),
    h.nil, Nat.add_zero]

/-- The number of a row is that of its cells and of the bars around them. -/
theorem rowLine (h : Sums bar f) {cs : List String} (hcs : cs ≠ []) :
    f (rowLine cs) = bar * (cs.length + 1) + (cs.map fun c => f c.toList).sum := by
  have hline : Markdown.rowLine cs = '|' :: ' ' :: (" | ".toList.intercalate (cs.map String.toList) ++ [' ', '|']) := by
    simp [Markdown.rowLine, String.toList_append, String.toList_intercalate]
  have hcells : f (" | ".toList.intercalate (cs.map String.toList) ++ [' ', '|']) =
      bar * cs.length + (cs.map fun c => f c.toList).sum := by
    clear hline
    induction cs with
    | nil => exact absurd rfl hcs
    | cons c cs ih =>
      cases cs with
      | nil =>
        have hone : " | ".toList.intercalate ([c].map String.toList) ++ [' ', '|'] = c.toList ++ ' ' :: ['|'] := by simp
        rw [hone, h.append_cons _ _ _ (by decide), h.cons_bar, h.nil]
        simp [Nat.add_comm]
      | cons d cs =>
        have hmore : " | ".toList.intercalate ((c :: d :: cs).map String.toList) ++ [' ', '|'] =
            c.toList ++ ' ' :: '|' :: ' ' ::
              (" | ".toList.intercalate ((d :: cs).map String.toList) ++ [' ', '|']) := by
          simp [List.intercalate_cons_cons]
        rw [hmore, h.append_cons _ _ _ (by decide), h.cons_bar, h.cons (by decide), ih (List.cons_ne_nil d cs)]
        simp only [List.map_cons, List.sum_cons, List.length_cons, Nat.mul_succ]
        omega
  rw [hline, h.cons_bar, h.cons (by decide), hcells, Nat.mul_succ]
  omega

end Sums

/-- A row has the cells that it is made of, one in front and one behind, and one more for each loose bar in them. -/
theorem length_cells_rowLine {cs : List String} (hcs : cs ≠ []) :
    (cells (rowLine cs)).length = cs.length + 2 + (cs.map fun c => looseBars c.toList).sum := by
  rw [length_cells, sums_looseBars.rowLine hcs]
  omega

theorem count_rowLine {cs : List String} (hcs : cs ≠ []) :
    (rowLine cs).count '\n' = (cs.map fun c => c.toList.count '\n').sum := by
  rw [sums_count.rowLine hcs, Nat.zero_mul, Nat.zero_add]

theorem ruleLine_unbroken (columns : List String) : '\n' ∉ ruleLine columns := by
  have hline : ruleLine columns =
      '|' :: (Text.join ['|'] (columns.map fun c => List.replicate (c.length + 2) '-') ++ ['|']) := by
    simp [ruleLine, Text.join, String.toList_append, String.toList_intercalate, List.map_map, Function.comp_def]
  rw [hline]
  intro hmem
  simp only [List.mem_cons, List.mem_append, List.not_mem_nil, or_false] at hmem
  rcases hmem with h | h | h
  · cases h
  · rcases Text.mem_join h with h | ⟨t, ht, h⟩
    · cases h
    · obtain ⟨c, -, rfl⟩ := List.mem_map.mp ht
      cases List.eq_of_mem_replicate h
  · cases h

theorem getLast?_rowLine (cs : List String) : (rowLine cs).getLast? = some '|' := by
  rw [rowLine, String.toList_append, List.getLast?_append]
  rfl

theorem getLast?_ruleLine (columns : List String) : (ruleLine columns).getLast? = some '|' := by
  rw [ruleLine, String.toList_append, List.getLast?_append]
  rfl

/-- A line that ends with a bar loses nothing but its line feed. -/
theorem lines_barred {line : Text} (h : '\n' ∉ line) (hbar : line.getLast? = some '|') (t : Text) :
    Text.lines (line ++ '\n' :: t) = line :: Text.lines t := by
  obtain ⟨w, rfl⟩ := List.getLast?_eq_some_iff.mp hbar
  rw [Text.lines_terminated h, List.reverse_append]
  simp [Text.closeLine]

end Checkup.Markdown
