import Checkup.Proofs.Source.Directive
import Checkup.Proofs.Source.ImportMark
import Checkup.Proofs.Text.Boundary

/-!
# The directive and marks in quoted texts

A mark in front of a quoted text leaves the directive of a file alone unless the text is the directive itself
(`findDirective_mark`): it changes one line (`exists_lines_quoted`), and a line states no directive but what it quotes
(`Directive.IsStatedBy.words_eq`).
-/

namespace Checkup

variable {content content' s t x y rear line line' : Text} {q q' : Char} {d : Directive} {n : Nat}

/-! ## The line of a quoted text -/

namespace Text

/-- What is in front of the end of a line stays in front of it, unless a carriage return is what it ends with. -/
theorem closeLine_append (ht : t.getLast? ≠ some '\r') (x : Text) :
    closeLine (t ++ x).reverse = t ++ closeLine x.reverse := by
  rcases List.eq_nil_or_concat x with rfl | ⟨x, c, rfl⟩
  · rcases List.eq_nil_or_concat t with rfl | ⟨t, c, rfl⟩
    · rfl
    · have hc : c ≠ '\r' := by simpa using ht
      simp [closeLine, hc]
  · by_cases hc : c = '\r'
    · simp [hc, closeLine]
    · simp [hc, closeLine]

/-- The first line behind which a text goes on, whatever its start is. -/
theorem exists_lines_rear (rear : Text) : ∃ r more, ∀ t, t ≠ [] → '\n' ∉ t → t.getLast? ≠ some '\r' →
    lines (t ++ rear) = (t ++ r) :: more := by
  by_cases hbreak : '\n' ∈ rear
  · obtain ⟨w, rest, rfl, hw⟩ := List.eq_append_cons_of_mem hbreak
    refine ⟨closeLine w.reverse, lines rest, fun t _ ht hlast => ?_⟩
    have htw : '\n' ∉ t ++ w := fun h => (List.mem_append.mp h).elim ht hw
    rw [← List.append_assoc, lines_terminated htw, closeLine_append hlast]
  · refine ⟨rear, [], fun t hne ht _ => ?_⟩
    have hall : '\n' ∉ t ++ rear := fun h => (List.mem_append.mp h).elim ht hbreak
    have hlines := linesFrom_unbroken hall [] []
    rw [List.append_nil, List.append_nil] at hlines
    rw [lines, hlines, linesFrom, if_neg (by simp [hne]), List.reverse_reverse]

end Text

/-- The lines around a quoted text do not depend on what is quoted. -/
theorem exists_lines_quoted (hq : isQuote q = true) (hq' : isQuote q' = true) (front rear : Text) :
    ∃ before x r behind, ∀ s, '\n' ∉ s →
      Text.lines (front ++ q :: (s ++ q' :: rear)) = before ++ (x ++ q :: (s ++ q' :: r)) :: behind := by
  obtain ⟨ls, x, rfl, hls, hx, -⟩ := Text.exists_place_eq front
  obtain ⟨r, more, hrear⟩ := Text.exists_lines_rear rear
  refine ⟨Text.lines ls.flatten, x, r, more, fun s hs => ?_⟩
  have hbreak {c : Char} (hc : isQuote c = true) : c ≠ '\n' ∧ c ≠ '\r' := by
    constructor <;> (rintro rfl; cases hc)
  have hquoted : '\n' ∉ x ++ q :: (s ++ [q']) := by
    simp only [List.mem_append, List.mem_cons, List.not_mem_nil, or_false, not_or]
    exact ⟨hx, (hbreak hq).1.symm, hs, (hbreak hq').1.symm⟩
  have hlast : (x ++ q :: (s ++ [q'])).getLast? ≠ some '\r' := by
    rw [← List.cons_append, ← List.append_assoc, List.getLast?_concat]
    exact fun h => (hbreak hq').2 (Option.some.inj h)
  have hline := hrear (x ++ q :: (s ++ [q'])) (by simp) hquoted hlast
  have hsplit : ls.flatten ++ x ++ q :: (s ++ q' :: rear) = ls.flatten ++ ((x ++ q :: (s ++ [q'])) ++ rear) := by simp
  rw [hsplit, Text.lines_append (Text.endsLine_flatten hls), hline]
  simp

/-! ## What the line says -/

/-- A line states no directive but the one that it quotes. -/
theorem Directive.IsStatedBy.words_eq (h : d.IsStatedBy (x ++ q :: (s ++ q' :: y))) (hq : isQuote q = true)
    (hq' : isQuote q' = true) (hs : Quoteless s) : d.words = s := by
  obtain ⟨lead, mark, gap, n, tail, hline, hmark, hblank⟩ := h
  have hmark : isQuote mark = true := by
    rcases List.mem_pair.mp hmark with rfl | rfl <;> rfl
  have hlead : Quoteless lead := quoteless_of_isBlank fun c hc => hblank c (by simp [hc])
  have hplain : ∀ c ∈ d.words, c ∉ ['\'', '\"'] := by cases d <;> decide
  have hwords : Quoteless d.words := quoteless_of_not_mem hplain
  have hrest : Quoteless (gap ++ (List.replicate n ';' ++ tail)) := by
    refine (quoteless_of_isBlank fun c hc => hblank c (by simp [hc])).append (.append (fun c hc => ?_)
      (quoteless_of_isBlank fun c hc => hblank c (by simp [hc])))
    rw [List.eq_of_mem_replicate hc]
    rfl
  generalize gap ++ (List.replicate n ';' ++ tail) = rest at hline hrest
  rw [Directive.quoted, List.cons_append, List.append_assoc, List.singleton_append] at hline
  obtain ⟨z, rfl, hz⟩ := exists_append_of_quoteless hlead hq hline.symm
  cases z with
  | nil =>
    obtain ⟨rfl, hbehind⟩ := List.cons.inj hz
    exact (hwords.append_inj hs hmark hq' hbehind).1
  | cons c z =>
    -- nothing is quoted behind the directive
    obtain ⟨rfl, hbehind⟩ := List.cons.inj hz
    obtain ⟨z, rfl, hend⟩ := exists_append_of_quoteless hwords hq hbehind
    cases z with
    | nil =>
      obtain ⟨-, rfl⟩ := List.cons.inj hend
      exact absurd (by simp) (hrest.not_mem hq')
    | cons c z =>
      obtain ⟨-, rfl⟩ := List.cons.inj hend
      exact absurd (by simp) (hrest.not_mem hq)

theorem isInk_quoted (hq : isQuote q = true) (x y : Text) : isInk (x ++ q :: y) = true := by
  have hblank : q.isBlank = false := (Bool.or_eq_false_iff.mp (isOpening_of_isQuote hq)).1
  simp [isInk, Text.isBlank, hblank]

/-! ## The directive -/

/-- A line that does not state the directive makes no difference to it. -/
theorem findDirective_replace {before behind : List Text} (h : Text.lines content = before ++ line :: behind)
    (h' : Text.lines content' = before ++ line' :: behind)
    (hink : isInk line' = isInk line) (hline : ¬ d.IsStatedBy line) (hline' : ∀ d' : Directive, ¬ d'.IsStatedBy line')
    (hd : findDirective content = some (d, n)) : findDirective content' = some (d, n) := by
  obtain ⟨as, l, bs, hlines, rfl, hcount, hcode, hstates, hfirst⟩ := findDirective_eq_some_iff.mp hd
  refine findDirective_eq_some_iff.mpr ?_
  rw [h] at hlines
  have hne : l ≠ line := fun heq => hline (heq ▸ hstates)
  rcases List.append_eq_append_iff.mp hlines with ⟨zs, rfl, hz⟩ | ⟨zs, rfl, hz⟩
  · cases zs with
    | nil => exact absurd (List.cons.inj hz).1.symm hne
    | cons z zs =>
      obtain ⟨rfl, rfl⟩ := List.cons.inj hz
      refine ⟨before ++ line' :: zs, l, bs, by rw [h']; simp, by simp, ?_, hcode, hstates, ?_⟩
      · simpa [List.countP_append, List.countP_cons, hink] using hcount
      · simp only [List.forall_mem_append, List.forall_mem_cons] at hfirst ⊢
        exact ⟨hfirst.1, fun _ => hline', hfirst.2.2⟩
  · cases zs with
    | nil => exact absurd (List.cons.inj hz).1 hne
    | cons z zs =>
      obtain ⟨rfl, rfl⟩ := List.cons.inj hz
      exact ⟨as, l, zs ++ line' :: behind, by rw [h']; simp, rfl, hcount, hcode, hstates, hfirst⟩

/-- **A mark in a quoted text leaves the directive alone** if the text is not the directive and does not become one. -/
theorem findDirective_mark {mark : Text} (front rear : Text) (hq : isQuote q = true) (hq' : isQuote q' = true)
    (hs : ∀ c ∈ s, c ∉ ['\'', '\"', '\n']) (hmark : IsMark mark) (hdirective : d.words ≠ s)
    (hmarked : ∀ d' : Directive, d'.words ≠ mark ++ s)
    (hd : findDirective (front ++ q :: (s ++ q' :: rear)) = some (d, n)) :
    findDirective (front ++ q :: (mark ++ (s ++ q' :: rear))) = some (d, n) := by
  obtain ⟨before, x, r, behind, hlines⟩ := exists_lines_quoted hq hq' front rear
  have hbreak {s : Text} (hs : ∀ c ∈ s, c ∉ ['\'', '\"', '\n']) : '\n' ∉ s := fun h => hs _ h (by simp)
  have hboth : ∀ c ∈ mark ++ s, c ∉ ['\'', '\"', '\n'] := List.forall_mem_append.mpr ⟨hmark.plain, hs⟩
  rw [← List.append_assoc mark]
  exact findDirective_replace (hlines s (hbreak hs)) (hlines (mark ++ s) (hbreak hboth))
    (by rw [isInk_quoted hq, isInk_quoted hq]) (fun h => hdirective (h.words_eq hq hq' (quoteless_of_not_mem hs)))
    (fun d' h => hmarked d' (h.words_eq hq hq' (quoteless_of_not_mem hboth))) hd

end Checkup
