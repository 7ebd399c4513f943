import Mathlib.Data.List.Nodup
import Checkup.Proofs.Pattern.Head
import Checkup.Proofs.Rule.Ownership
import Checkup.Proofs.Text.Boundary
import Checkup.Proofs.Text.Bracket
import Checkup.Proofs.Text.Occurrence
import Checkup.Rule.Route

/-!
# Calls in `try` blocks that leave the page

The rule searches the body of each `try` block as a text of its own. What it finds there are the calls of the whole text
that lie in the block (`mem_navigationsInTry_iff`). A call in several blocks is found in each of them; it is kept once
(`mem_firstOfEach_iff`), and the findings are sorted by line and column, which is the order of the calls
(`redirectInTry_calls`).
-/

namespace Checkup

open Pattern

variable {content name : Text} {start stop opening close offset : Nat} {path : String}

/-! ## Calls and blocks -/

/-- The functions that leave the page. -/
def navigationNames : List Text := ["redirect".toList, "notFound".toList, "permanentRedirect".toList]

/-- Whether from `start` up to `stop` the text has the start of a call that leaves the page: the name of the function,
where a word starts, blanks and a parenthesis. -/
def NavigationAt (content : Text) (start stop : Nat) (name : Text) : Prop :=
  IsHead navigationNames '(' content start stop name

/-- Whether the text has a `try` block between the braces at the two offsets. -/
def TryBlock (content : Text) (opening close : Nat) : Prop :=
  (∃ start, IsHead ["try".toList] '\x7b' content start (opening + 1) "try".toList) ∧
    Text.blockEnd content opening = some close

/-- Whether a call of the function that leaves the page stands at the offset, between the braces of a `try` block. -/
def NavigationInTry (content : Text) (start : Nat) (name : Text) : Prop :=
  ∃ stop opening close, NavigationAt content start stop name ∧ TryBlock content opening close ∧
    opening < start ∧ stop ≤ close

theorem takesWords_try : (lit "try").TakesWords ["try".toList] fun _ _ _ g => g where
  takes_iff := by
    intro pre w post g g'
    rw [List.mem_singleton]
    exact literal_takes_iff
  isWord := by decide

theorem takesWords_navigation : (group 1 (anyOf [lit "redirect", lit "notFound", lit "permanentRedirect"])).TakesWords
    navigationNames fun pre w post g => (1, .behind pre (w ++ post), .behind (pre ++ w) post) :: g where
  takes_iff := by
    intro pre w post g g'
    have hnames (g₁ : Marks) : (anyOf (navigationNames.map literal)).Takes pre w post g g₁ ↔
        w ∈ navigationNames ∧ g₁ = g :=
      anyOf_takes_iff
    constructor
    · rintro ⟨g₁, hw, rfl⟩
      obtain ⟨hmem, rfl⟩ := (hnames g₁).mp hw
      exact ⟨hmem, rfl⟩
    · rintro ⟨hw, rfl⟩
      exact ⟨g, (hnames g).mpr ⟨hw, rfl⟩, rfl⟩
  isWord := by decide

/-- What the search in a text that starts at some offset lists: where the calls start, and their functions. -/
theorem mem_navigationCalls_iff {t : Text} {k : Nat} :
    (offset, name) ∈ (navigationCall.findAll t).filterMap
        (fun call => (call.group? 1).map fun n => (k + call.start, n.text)) ↔
      ∃ start stop, NavigationAt t start stop name ∧ offset = k + start := by
  have hmem (m : Match) :=
    mem_findAll_head_iff (m := m) (t := t) takesWords_navigation (c := '(') (by decide) (by decide) (by decide)
  have hgroup (before word rest : Text) :
      (captures [(1, Cursor.behind before (word ++ rest), Cursor.behind (before ++ word) rest)]).lookup 1 =
        some ⟨Text.byteSize before, word⟩ := by
    rw [← Capture.between_behind before word rest]
    rfl
  rw [List.mem_filterMap]
  constructor
  · rintro ⟨m, hm, hcall⟩
    obtain ⟨before, word, gap, rest, rfl, hword, hbefore, hgap, rfl⟩ := (hmem m).mp hm
    rw [Match.group?, hgroup, Option.map_some, Option.some.injEq, Prod.mk.injEq] at hcall
    obtain ⟨rfl, rfl⟩ := hcall
    exact ⟨_, _, ⟨before, gap, rest, rfl, hword, hbefore, hgap, rfl, rfl⟩, rfl⟩
  · rintro ⟨_, _, ⟨before, gap, rest, rfl, hword, hbefore, hgap, rfl, rfl⟩, rfl⟩
    refine ⟨_, (hmem _).mpr ⟨before, name, gap, rest, rfl, hword, hbefore, hgap, rfl⟩, ?_⟩
    rw [Match.group?, hgroup]
    rfl

/-- The function of a call is known by the place of the call. -/
theorem NavigationAt.name_eq {stop' : Nat} {name' : Text} (h : NavigationAt content start stop name)
    (h' : NavigationAt content start stop' name') : name = name' := by
  obtain ⟨before, gap, rest, rfl, hname, _, hgap, rfl, _⟩ := h
  obtain ⟨before', gap', rest', htext, hname', _, hgap', hstart, _⟩ := h'
  obtain ⟨rfl, hbehind⟩ := Text.eq_of_byteSize_eq htext hstart
  have hword {w : Text} (hw : w ∈ navigationNames) : ∀ x ∈ w, x.isWord = true := (takesWords_navigation.isWord w hw).2
  exact (head_inj (by decide) (by decide) (hword hname) (hword hname') hgap hgap' hbehind).1

/-! ## The search in the blocks -/

theorem exists_tryStart_iff : (∃ m ∈ tryStart.findAll content, m.stop = stop) ↔
    ∃ start, IsHead ["try".toList] '\x7b' content start stop "try".toList := by
  have hmem (m : Match) :=
    mem_findAll_head_iff (m := m) (t := content) takesWords_try (c := '\x7b') (by decide) (by decide) (by decide)
  constructor
  · rintro ⟨m, hm, rfl⟩
    obtain ⟨before, word, gap, rest, rfl, hword, hbefore, hgap, rfl⟩ := (hmem m).mp hm
    obtain rfl := List.mem_singleton.mp hword
    exact ⟨_, before, gap, rest, rfl, hword, hbefore, hgap, rfl, by rw [Capture.stop, Text.byteSize_append before]⟩
  · rintro ⟨_, before, gap, rest, rfl, hword, hbefore, hgap, rfl, rfl⟩
    exact ⟨_, (hmem _).mpr ⟨before, _, gap, rest, rfl, hword, hbefore, hgap, rfl⟩,
      by rw [Capture.stop, Text.byteSize_append before]⟩

/-- The calls in what a block holds are those of the text between its braces. -/
theorem navigation_block_iff (hblock : Text.blockEnd content opening = some close) :
    (∃ s stop, NavigationAt (Text.slice content (opening + 1) close) s stop name ∧ offset = opening + 1 + s) ↔
      ∃ stop, NavigationAt content offset stop name ∧ opening < offset ∧ stop ≤ close := by
  obtain ⟨front, body, post, rfl, hfront, rfl, hword⟩ := Text.exists_body_of_blockEnd hblock
  rw [← hfront, Text.slice_append]
  constructor
  · rintro ⟨s, stop, h, rfl⟩
    obtain ⟨hcall, hle⟩ := (isHead_part_iff hword post).mp h
    exact ⟨_, hcall, by omega, Nat.add_le_add_left hle _⟩
  · rintro ⟨stop, hcall, hlt, hle⟩
    obtain ⟨s, rfl⟩ := Nat.exists_eq_add_of_le (show Text.byteSize front ≤ offset by omega)
    have hstop := hcall.lt
    obtain ⟨stop, rfl⟩ := Nat.exists_eq_add_of_le (show Text.byteSize front ≤ stop by omega)
    exact ⟨s, stop, (isHead_part_iff hword post).mpr ⟨hcall, Nat.le_of_add_le_add_left hle⟩, rfl⟩

/-- **What is listed** are the calls in `try` blocks. -/
theorem mem_navigationsInTry_iff : (start, name) ∈ navigationsInTry content ↔ NavigationInTry content start name := by
  rw [navigationsInTry, List.mem_flatMap]
  constructor
  · rintro ⟨m, hm, hlisted⟩
    split at hlisted
    · cases hlisted
    rename_i close hblock
    have hcall := mem_navigationCalls_iff.mp hlisted
    obtain ⟨s, htry⟩ := exists_tryStart_iff.mp ⟨m, hm, rfl⟩
    have hstop : m.stop = m.stop - 1 + 1 := by
      have := htry.lt
      omega
    rw [hstop] at hcall htry
    obtain ⟨stop, hcall, hlt, hle⟩ := (navigation_block_iff hblock).mp hcall
    exact ⟨stop, _, close, hcall, ⟨⟨s, htry⟩, hblock⟩, hlt, hle⟩
  · rintro ⟨stop, opening, close, hcall, ⟨htry, hblock⟩, hlt, hle⟩
    obtain ⟨m, hm, hstop⟩ := exists_tryStart_iff.mpr htry
    refine ⟨m, hm, ?_⟩
    rw [hstop, Nat.add_sub_cancel, hblock]
    exact mem_navigationCalls_iff.mpr ((navigation_block_iff hblock).mpr ⟨stop, hcall, hlt, hle⟩)

/-! ## One finding for each call -/

theorem firstOfEach_sublist {α : Type} (seen : List Nat) (l : List (Nat × α)) : (firstOfEach seen l).Sublist l := by
  fun_induction firstOfEach seen l with
  | case1 => exact List.Sublist.refl []
  | case2 seen n x rest hseen ih => exact ih.cons _
  | case3 seen n x rest hseen ih => exact ih.cons_cons _

theorem nodup_firstOfEach {α : Type} (seen : List Nat) (l : List (Nat × α)) :
    ((firstOfEach seen l).map Prod.fst).Nodup ∧ ∀ c ∈ firstOfEach seen l, c.1 ∉ seen := by
  fun_induction firstOfEach seen l with
  | case1 => simp
  | case2 seen n x rest hseen ih => exact ih
  | case3 seen n x rest hseen ih =>
    obtain ⟨hnodup, hnot⟩ := ih
    refine ⟨?_, List.forall_mem_cons.mpr
      ⟨by simpa using hseen, fun c hc => (not_or.mp (mt List.mem_cons.mpr (hnot c hc))).2⟩⟩
    rw [List.map_cons, List.nodup_cons]
    refine ⟨fun hmem => ?_, hnodup⟩
    obtain ⟨c, hc, rfl⟩ := List.mem_map.mp hmem
    exact hnot c hc List.mem_cons_self

/-- If pairs with one number are the same, none is lost. -/
theorem mem_firstOfEach_iff {α : Type} {seen : List Nat} {l : List (Nat × α)} {n : Nat} {x : α}
    (h : ∀ n x y, (n, x) ∈ l → (n, y) ∈ l → x = y) : (n, x) ∈ firstOfEach seen l ↔ n ∉ seen ∧ (n, x) ∈ l := by
  fun_induction firstOfEach seen l with
  | case1 => simp
  | case2 seen m y rest hseen ih =>
    rw [ih fun n x y hx hy => h n x y (List.mem_cons_of_mem _ hx) (List.mem_cons_of_mem _ hy), List.mem_cons]
    refine and_congr_right fun hn => (or_iff_right ?_).symm
    rintro ⟨rfl, rfl⟩
    exact hn (by simpa using hseen)
  | case3 seen m y rest hseen ih =>
    rw [List.mem_cons, List.mem_cons,
      ih fun n x y hx hy => h n x y (List.mem_cons_of_mem _ hx) (List.mem_cons_of_mem _ hy), List.mem_cons, not_or]
    constructor
    · rintro (heq | ⟨⟨_, hn⟩, hmem⟩)
      · obtain ⟨rfl, rfl⟩ := Prod.mk.inj heq
        exact ⟨by simpa using hseen, Or.inl rfl⟩
      · exact ⟨hn, Or.inr hmem⟩
    · rintro ⟨hn, hmem⟩
      by_cases heq : n = m
      · subst heq
        have hfirst : x = y := h n x y (List.mem_cons.mpr hmem) List.mem_cons_self
        exact Or.inl (by rw [hfirst])
      · exact Or.inr ⟨⟨heq, hn⟩, hmem.resolve_left fun e => heq (Prod.mk.inj e).1⟩

theorem Spot.notAfter_iff (a b : Spot) :
    a.notAfter b = true ↔ a.line < b.line ∨ a.line = b.line ∧ a.column ≤ b.column := by
  simp [Spot.notAfter]

/-- What the rule says about a call. -/
def navigationSpot (content : Text) (call : Nat × Text) : Spot :=
  Spot.atOffset content call.1 s!"`{String.ofList call.2}()` is called inside a try block"
    "Call it after the try/catch, or rethrow with `unstable_rethrow(error)` in the catch"

theorem NavigationInTry.isBoundary (h : NavigationInTry content start name) : Text.IsBoundary content start := by
  obtain ⟨_, _, _, ⟨before, gap, rest, rfl, _, _, _, rfl, _⟩, _⟩ := h
  exact ⟨before, _, rfl, rfl⟩

/-- A text with such a call has the clue of the rule. -/
theorem NavigationInTry.hasClues (h : NavigationInTry content start name) : redirectInTry.hasClues content = true := by
  obtain ⟨_, _, _, _, ⟨⟨_, before, gap, rest, rfl, _⟩, _⟩, _⟩ := h
  have hinfix : "try".toList <:+: before ++ ("try".toList ++ (gap ++ '\x7b' :: rest)) :=
    ⟨before, _, List.append_assoc _ _ _⟩
  have hhas := Text.occurs_iff.mpr hinfix
  simp only [Rule.hasClues, redirectInTry, RuleInfo.rule, List.all_cons, List.all_nil, List.any_cons, List.any_nil,
    Bool.or_false, Bool.and_true]
  exact hhas

/-- Sorted by line and column the calls are sorted by offset. -/
theorem sort_navigationSpot {calls : List (Nat × Text)} (h : ∀ c ∈ calls, Text.IsBoundary content c.1) :
    Spot.sort (calls.map (navigationSpot content)) =
      (calls.mergeSort fun a b => decide (a.1 ≤ b.1)).map (navigationSpot content) := by
  refine (List.map_mergeSort fun a ha b hb => ?_).symm
  have hlater := Text.lt_iff_lexLt (h b hb) (h a ha)
  unfold Prod.lexLt at hlater
  rw [Bool.eq_iff_iff, decide_eq_true_eq, Spot.notAfter_iff]
  change _ ↔ (Text.lineCol content a.1).1 < (Text.lineCol content b.1).1 ∨
    (Text.lineCol content a.1).1 = (Text.lineCol content b.1).1 ∧
    (Text.lineCol content a.1).2 ≤ (Text.lineCol content b.1).2
  omega

/-- **Calls in `try` blocks.** The rule gives one finding for each call that leaves the page and stands between the
braces of a `try` block, and no other ones: there is one list of these calls by increasing offset, and the findings
are about them, one after the other, each at the line and column of its call. So no two findings have one place, and
each comes behind the one before it. -/
theorem redirectInTry_calls (path : String) (content : Text) : ∃ calls : List (Nat × Text),
    (∀ start name, (start, name) ∈ calls ↔ NavigationInTry content start name) ∧
      calls.Pairwise (fun c c' => c.1 < c'.1) ∧
      redirectInTry.detect path content = .ok
        (calls.map fun c => redirectInTry.info.finding path (navigationSpot content c)) ∧
      (calls.map fun c => Text.lineCol content c.1).Pairwise Prod.lexLt := by
  let listed := firstOfEach [] (navigationsInTry content)
  let calls := listed.mergeSort fun a b => decide (a.1 ≤ b.1)
  have hmem (start : Nat) (name : Text) : (start, name) ∈ calls ↔ NavigationInTry content start name := by
    have hsame (n : Nat) (x y : Text) (hx : (n, x) ∈ navigationsInTry content)
        (hy : (n, y) ∈ navigationsInTry content) :
        x = y := by
      obtain ⟨_, _, _, hcall, _⟩ := mem_navigationsInTry_iff.mp hx
      obtain ⟨_, _, _, hcall', _⟩ := mem_navigationsInTry_iff.mp hy
      exact hcall.name_eq hcall'
    rw [List.mem_mergeSort, mem_firstOfEach_iff hsame, mem_navigationsInTry_iff]
    exact and_iff_right List.not_mem_nil
  have hboundary : ∀ c ∈ calls, Text.IsBoundary content c.1 := fun c hc => ((hmem c.1 c.2).mp hc).isBoundary
  have hincreasing : calls.Pairwise fun c c' => c.1 < c'.1 := by
    have hsorted : calls.Pairwise fun c c' => decide (c.1 ≤ c'.1) = true :=
      List.pairwise_mergeSort (by simp only [decide_eq_true_eq]; omega)
        (by simp only [Bool.or_eq_true, decide_eq_true_eq]; omega) _
    have hnodup : (calls.map Prod.fst).Nodup :=
      ((List.mergeSort_perm _ _).map Prod.fst).nodup_iff.mpr (nodup_firstOfEach [] _).1
    refine (hsorted.and (List.pairwise_map.mp hnodup)).imp fun h => ?_
    exact Nat.lt_of_le_of_ne (of_decide_eq_true h.1) h.2
  refine ⟨calls, hmem, hincreasing, ?_, ?_⟩
  · have hspots : redirectInTry.ReportsSpots fun _ content =>
        Spot.sort ((firstOfEach [] (navigationsInTry content)).map (navigationSpot content)) := rfl
    rw [hspots.detect_eq]
    split
    · rw [sort_navigationSpot fun c hc => hboundary c (List.mem_mergeSort.mpr hc), List.map_map]
      rfl
    · rename_i hclues
      have hnone : calls = [] :=
        List.eq_nil_iff_forall_not_mem.mpr fun c hc => hclues ((hmem c.1 c.2).mp hc).hasClues
      rw [hnone]
      rfl
  · refine List.pairwise_map.mpr (hincreasing.imp_of_mem fun hc hc' hlt => ?_)
    exact (Text.lt_iff_lexLt (hboundary _ hc) (hboundary _ hc')).mp hlt

end Checkup
