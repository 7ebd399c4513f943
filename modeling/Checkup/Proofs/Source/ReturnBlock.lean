import Mathlib.Algebra.Order.Ring.Int
import Mathlib.Tactic.SplitIfs
import Checkup.Proofs.Pattern.Shape
import Checkup.Proofs.Text.Block
import Checkup.Source.ReturnBlock
import Checkup.Text.Position

/-!
# Blocks of markup and the parenthesis that ends them

`ReturnBlock.feed` sees one line at a time, counts parentheses, and decides at the end of the line. `Text.blockEnd`
looks for the parenthesis that closes the block in all lines at once. They agree (`ReturnBlock.feed_follows_block`):
until the line of that parenthesis the block stays open, as deep as the text up to the end of each line leaves it.

* `Text.closeFrom_paren_eq_none_iff`, `Text.exists_of_closeFrom_paren`: the search for the parenthesis, said with
  balances.
* `Text.joinLines_cons`, `Text.lineStart`: the lines as one text, and where each of them starts.
* `ReturnBlock.after_eq`: what a block that stays open at the ends of some lines is behind them.
-/

namespace Checkup

/-! ## Balances -/

/-- What a character adds to the balance. -/
def parenWeight (c : Char) : Int := if c = '(' then 1 else if c = ')' then -1 else 0

theorem parenBalance_eq_sum (t : Text) : parenBalance t = (t.map parenWeight).sum := by
  have shift (t : Text) (n : Int) :
      t.foldl (fun n c => if c = '(' then n + 1 else if c = ')' then n - 1 else n) n =
        n + (t.map parenWeight).sum := by
    induction t generalizing n with
    | nil => exact (Int.add_zero n).symm
    | cons c t ih =>
      rw [List.foldl_cons, ih, List.map_cons, List.sum_cons, parenWeight]
      split_ifs <;> omega
  rw [parenBalance, shift, Int.zero_add]

@[simp] theorem parenBalance_nil : parenBalance [] = 0 := rfl

theorem parenBalance_cons (c : Char) (t : Text) : parenBalance (c :: t) = parenWeight c + parenBalance t := by
  simp only [parenBalance_eq_sum, List.map_cons, List.sum_cons]

@[simp] theorem parenBalance_append (s t : Text) : parenBalance (s ++ t) = parenBalance s + parenBalance t := by
  simp only [parenBalance_eq_sum, List.map_append, List.sum_append_int]

/-- A text that opens nothing leaves no more open than there was. -/
theorem parenBalance_nonpos {t : Text} (h : '(' ∉ t) : parenBalance t ≤ 0 := by
  induction t with
  | nil => exact Int.le_refl 0
  | cons c t ih =>
    obtain ⟨hc, ht⟩ := not_or.mp (mt List.mem_cons.mpr h)
    have hw : parenWeight c ≤ 0 := by
      rw [parenWeight, if_neg (Ne.symm hc)]
      split_ifs <;> omega
    rw [parenBalance_cons]
    have := ih ht
    omega

/-- Whether so many open parentheses are never all closed: each start of the text leaves one open. -/
def StaysOpen (depth : Int) (t : Text) : Prop := ∀ p, p <+: t → 1 ≤ depth + parenBalance p

namespace Text

/-! ## The parenthesis that closes a block -/

variable {depth pos close : Nat} {t : Text}

theorem parenBalance_eq_count (t : Text) : parenBalance t = t.count '(' - t.count ')' := by
  induction t with
  | nil => rfl
  | cons c t ih =>
    rw [parenBalance_cons, ih, parenWeight, List.count_cons, List.count_cons]
    by_cases hopen : c = '('
    · subst hopen
      simp only [if_true, beq_self_eq_true, show ('(' == ')') = false from rfl, Bool.false_eq_true, if_false]
      omega
    · by_cases hclose : c = ')'
      · subst hclose
        simp only [if_neg hopen, if_true, beq_self_eq_true, show (')' == '(') = false from rfl,
          Bool.false_eq_true, if_false]
        omega
      · simp only [if_neg hopen, if_neg hclose, beq_iff_eq]
        omega

theorem staysOpen_iff : StaysOpen depth t ↔ Unclosed '(' ')' depth t := by
  refine forall_congr' fun p => imp_congr_right fun _ => ?_
  rw [parenBalance_eq_count]
  omega

/-- There is no closing parenthesis exactly if the text stays open. -/
theorem closeFrom_paren_eq_none_iff (hd : 0 < depth) : closeFrom '(' ')' depth pos t = none ↔ StaysOpen depth t := by
  rw [staysOpen_iff, closeFrom_eq_none_iff (by decide) hd]

/-- The closing parenthesis is the first one behind which nothing is open. -/
theorem exists_of_closeFrom_paren (hd : 0 < depth) (h : closeFrom '(' ')' depth pos t = some close) :
    ∃ a b, t = a ++ ')' :: b ∧ close = pos + byteSize a ∧ StaysOpen depth a ∧ depth + parenBalance a = 1 := by
  obtain ⟨a, b, rfl, ha, hcount, rfl⟩ := (closeFrom_eq_some_iff (by decide) hd).mp h
  refine ⟨a, b, rfl, rfl, staysOpen_iff.mpr ha, ?_⟩
  rw [parenBalance_eq_count]
  omega

/-- The parenthesis that closes the one behind `pre` is looked for in what follows it. -/
theorem blockEnd_append_paren (pre t : Text) :
    blockEnd (pre ++ '(' :: t) (byteSize pre) = closeFrom '(' ')' 1 (byteSize pre + 1) t := by
  rw [blockEnd, dropBytes?_append]
  rfl

/-! ## Lines of one text -/

/-- The lines as one text, with line feeds between them. -/
abbrev joinLines (ls : List Text) : Text := join ['\n'] ls

theorem joinLines_cons (line : Text) (ls : List Text) : joinLines (line :: ls) = line ++ ls.flatMap ('\n' :: ·) := by
  induction ls generalizing line with
  | nil => simp [join]
  | cons next ls ih =>
    rw [List.flatMap_cons, List.cons_append, ← ih next, joinLines, join, List.intercalate_cons_cons, List.append_assoc]
    rfl

/-- Lines that start with a text start with it as one text. -/
theorem joinLines_append (pre line : Text) (ls : List Text) :
    joinLines ((pre ++ line) :: ls) = pre ++ joinLines (line :: ls) := by
  rw [joinLines_cons, joinLines_cons, List.append_assoc]

theorem joinLines_append_cons (pre : Text) (c : Char) (line : Text) (ls : List Text) :
    joinLines ((pre ++ c :: line) :: ls) = pre ++ c :: joinLines (line :: ls) := by
  rw [joinLines_append, joinLines_cons, List.cons_append, ← joinLines_cons]

/-- The first two lines as one. -/
theorem joinLines_cons_cons (line next : Text) (ls : List Text) :
    joinLines (line :: next :: ls) = joinLines ((line ++ '\n' :: next) :: ls) := by
  simp [joinLines_cons]

/-- The first lines, and those behind them. -/
theorem joinLines_take (line : Text) (ls : List Text) (k : Nat) :
    joinLines (line :: ls) = joinLines (line :: ls.take k) ++ (ls.drop k).flatMap ('\n' :: ·) := by
  rw [joinLines_cons, joinLines_cons, List.append_assoc, ← List.flatMap_append, List.take_append_drop]

theorem prefix_joinLines_take (line : Text) (ls : List Text) {i j : Nat} (h : i ≤ j) :
    joinLines (line :: ls.take i) <+: joinLines (line :: ls.take j) := by
  rw [joinLines_take line (ls.take j) i, List.take_take, Nat.min_eq_left h]
  exact List.prefix_append _ _

/-- The offset where a line starts in the lines as one text: each line before it takes its bytes and a line feed. -/
def lineStart (ls : List Text) (k : Nat) : Nat := ((ls.take k).map fun l => byteSize l + 1).sum

theorem lineStart_cons_succ (line : Text) (ls : List Text) (k : Nat) :
    lineStart (line :: ls) (k + 1) = byteSize (joinLines (line :: ls.take k)) + 1 := by
  rw [lineStart, List.take_succ_cons]
  induction ls.take k generalizing line with
  | nil => simp [joinLines_cons]
  | cons next ls ih =>
    rw [List.map_cons, List.sum_cons, ih, joinLines_cons_cons, joinLines_cons, joinLines_cons]
    simp only [byteSize_append, byteSize_cons]
    show _ = _ + (1 + _) + _ + 1
    omega

/-- What is on a line is on one that is there. -/
theorem lt_length_of_onLine {ls : List Text} {j n : Nat} (hstart : lineStart ls j ≤ n)
    (hend : n < lineStart ls (j + 1)) :
    j < ls.length := by
  refine Nat.lt_of_not_le fun hj => ?_
  rw [lineStart, List.take_of_length_le (by omega)] at hstart hend
  omega

end Text

namespace ReturnBlock

/-! ## Lines that are fed -/

/-- Where the line behind some lines stands. -/
def after (s : ReturnBlock) (ls : List Text) : ReturnBlock := ls.foldl (fun s line => (s.feed line).2) s

theorem mark_take (s : ReturnBlock) (ls : List Text) (n : Nat) : (s.mark ls).take n = s.mark (ls.take n) := by
  induction ls generalizing s n with
  | nil => simp [mark]
  | cons line ls ih =>
    cases n with
    | zero => rfl
    | succ n => rw [mark, List.take_succ_cons, ih, List.take_succ_cons, mark]

theorem ofBalance_of_pos {n : Int} (h : 1 ≤ n) : ofBalance n = inside n.toNat := if_pos (by omega)

theorem ofBalance_of_nonpos {n : Int} (h : n ≤ 0) : ofBalance n = outside := if_neg (by omega)

/-- A line inside of a block adds its balance. -/
theorem feed_ofBalance {n : Int} (h : 1 ≤ n) (line : Text) :
    (ofBalance n).feed line = (true, ofBalance (n + parenBalance line)) := by
  rw [ofBalance_of_pos h, feed, Int.toNat_of_nonneg (by omega)]

/-- Lines behind a text. The depth behind them is what all of it leaves open, if something is open at the end of each
line but the last. -/
theorem after_eq (body : Text) (ls : List Text)
    (h : ∀ k < ls.length, 1 ≤ parenBalance (Text.joinLines (body :: ls.take k))) :
    (ofBalance (parenBalance body)).after ls = ofBalance (parenBalance (Text.joinLines (body :: ls))) ∧
      (ofBalance (parenBalance body)).mark ls = List.replicate ls.length true := by
  induction ls generalizing body with
  | nil => simp [after, mark, Text.joinLines_cons]
  | cons line ls ih =>
    have hbody : 1 ≤ parenBalance body := by simpa [Text.joinLines_cons] using h 0 (Nat.succ_pos _)
    have hstep : (ofBalance (parenBalance body)).feed line =
        (true, ofBalance (parenBalance (body ++ '\n' :: line))) := by
      rw [feed_ofBalance hbody, parenBalance_append, parenBalance_cons]
      simp [parenWeight]
    obtain ⟨hafter, hmark⟩ := ih (body ++ '\n' :: line) fun k hk => by
      rw [← Text.joinLines_cons_cons]
      exact h (k + 1) (Nat.succ_lt_succ hk)
    constructor
    · rw [after, List.foldl_cons, hstep, Text.joinLines_cons_cons]
      exact hafter
    · rw [mark, hstep, hmark]
      rfl

/-- The match ends with the parenthesis. -/
theorem exists_paren {first : Text} {m : Match} (hm : returnParen.find first = some m) :
    ∃ pre tail, first = pre ++ '(' :: tail ∧ m.stop - 1 = Text.byteSize pre := by
  obtain ⟨pre, w, post, g, h⟩ := Pattern.find_of hm
  have hends : returnParen.EndsWith '(' := fun x hx => eq_of_beq hx
  obtain ⟨w, rfl⟩ := Pattern.endsWith_takes hends h.takes
  refine ⟨pre ++ w, post, by rw [h.text_eq]; simp, ?_⟩
  rw [h.eq, Capture.stop, Text.byteSize_append, Text.byteSize_append, Text.byteSize_singleton]
  exact Nat.add_sub_assoc (Nat.le_add_left 1 _) _

section Block

variable {pre tail : Text} {m : Match} {rest : List Text}

/-- From a line with `return (` on, the lines as long as something is open at their ends. -/
theorem after_cons (hm : returnParen.find (pre ++ '(' :: tail) = some m) (hpre : m.stop - 1 = Text.byteSize pre)
    (h : ∀ k < rest.length, 1 ≤ parenBalance (Text.joinLines (('(' :: tail) :: rest.take k))) :
    outside.after ((pre ++ '(' :: tail) :: rest) = ofBalance (parenBalance (Text.joinLines (('(' :: tail) :: rest))) ∧
      outside.mark ((pre ++ '(' :: tail) :: rest) = List.replicate (rest.length + 1) true := by
  have hstep : outside.feed (pre ++ '(' :: tail) = (true, ofBalance (parenBalance ('(' :: tail))) := by
    rw [feed, feedOutside, hm]
    simp only [hpre, Text.dropBytes_append]
  obtain ⟨hafter, hmark⟩ := after_eq ('(' :: tail) rest h
  constructor
  · rw [after, List.foldl_cons, hstep]
    exact hafter
  · rw [mark, hstep, hmark]
    rfl

/-- The same for some of the lines. -/
theorem after_take (hm : returnParen.find (pre ++ '(' :: tail) = some m) (hpre : m.stop - 1 = Text.byteSize pre)
    {k : Nat} (h : ∀ i < k, 1 ≤ parenBalance (Text.joinLines (('(' :: tail) :: rest.take i))) :
    let ls := (pre ++ '(' :: tail) :: rest
    outside.after (ls.take (k + 1)) = ofBalance (parenBalance (Text.joinLines (('(' :: tail) :: rest.take k))) ∧
      outside.mark (ls.take (k + 1)) = List.replicate ((rest.take k).length + 1) true := by
  refine after_cons hm hpre fun i hi => ?_
  have hik : i < k := Nat.lt_of_lt_of_le hi (List.length_take_le k rest)
  rw [List.take_take, Nat.min_eq_left (Nat.le_of_lt hik)]
  exact h i hik

/-- What the lines hold from the parenthesis up to the end of a line. -/
theorem slice_lineEnd (pre tail : Text) (rest : List Text) (k : Nat) :
    Text.slice (Text.joinLines ((pre ++ '(' :: tail) :: rest)) (Text.byteSize pre)
      (Text.lineStart ((pre ++ '(' :: tail) :: rest) (k + 1) - 1) = Text.joinLines (('(' :: tail) :: rest.take k) := by
  rw [Text.lineStart_cons_succ, Nat.add_sub_cancel, Text.joinLines_append, Text.joinLines_append,
    Text.joinLines_take _ rest k, Text.byteSize_append]
  exact Text.slice_append _ _ _

theorem parenBalance_paren (tail : Text) (ls : List Text) :
    parenBalance (Text.joinLines (('(' :: tail) :: ls)) = 1 + parenBalance (Text.joinLines (tail :: ls)) := by
  have hlines : Text.joinLines (('(' :: tail) :: ls) = '(' :: Text.joinLines (tail :: ls) :=
    Text.joinLines_append_cons [] '(' tail ls
  rw [hlines, parenBalance_cons]
  rfl

/-- While the block is open, the depth behind a line is what the lines leave open from the parenthesis on. -/
theorem exists_depth (hm : returnParen.find (pre ++ '(' :: tail) = some m) (hpre : m.stop - 1 = Text.byteSize pre)
    {k : Nat} (h : ∀ i ≤ k, 1 ≤ parenBalance (Text.joinLines (('(' :: tail) :: rest.take i))) :
    let ls := (pre ++ '(' :: tail) :: rest
    ∃ depth : Nat, 1 ≤ depth ∧
      parenBalance (Text.slice (Text.joinLines ls) (m.stop - 1) (Text.lineStart ls (k + 1) - 1)) = depth ∧
      outside.after (ls.take (k + 1)) = inside depth := by
  intro ls
  have hk := h k (Nat.le_refl k)
  refine ⟨(parenBalance (Text.joinLines (('(' :: tail) :: rest.take k))).toNat, by omega, ?_, ?_⟩
  · rw [hpre, slice_lineEnd, Int.toNat_of_nonneg (by omega)]
  · rw [(after_take hm hpre fun i hi => h i (Nat.le_of_lt hi)).1, ofBalance_of_pos hk]

/-- The line of the parenthesis that closes the block: the lines before it end before the parenthesis, which is followed
by the rest of its line. -/
theorem exists_close {close j : Nat}
    (h : Text.closeFrom '(' ')' 1 (Text.byteSize pre + 1) (Text.joinLines (tail :: rest)) = some close)
    (hstart : Text.lineStart ((pre ++ '(' :: tail) :: rest) j ≤ close)
    (hend : close < Text.lineStart ((pre ++ '(' :: tail) :: rest) (j + 1)) :
    ∃ a w, close = Text.byteSize (pre ++ '(' :: a) ∧ StaysOpen 1 a ∧ parenBalance a = 0 ∧
      (∀ k < j, Text.joinLines (tail :: rest.take k) <+: a) ∧
      Text.joinLines (tail :: rest.take j) = a ++ ')' :: w := by
  obtain ⟨a, b, hab, rfl, hopen, hbalance⟩ := Text.exists_of_closeFrom_paren Nat.one_pos h
  have hsize (k : Nat) : Text.lineStart ((pre ++ '(' :: tail) :: rest) (k + 1) =
      Text.byteSize pre + 1 + Text.byteSize (Text.joinLines (tail :: rest.take k)) + 1 := by
    rw [Text.lineStart_cons_succ, Text.joinLines_append_cons, Text.byteSize_append, Text.byteSize_cons, ← Nat.add_assoc]
    rfl
  have hlines (k : Nat) : Text.joinLines (tail :: rest.take k) <+: Text.joinLines (tail :: rest) :=
    ⟨_, (Text.joinLines_take tail rest k).symm⟩
  have ha : a <+: Text.joinLines (tail :: rest) := ⟨_, hab.symm⟩
  have hbefore : ∀ k < j, Text.joinLines (tail :: rest.take k) <+: a := by
    intro k hk
    obtain ⟨i, rfl⟩ := Nat.exists_eq_add_of_lt hk
    rw [hsize] at hstart
    exact (Text.prefix_joinLines_take tail rest (Nat.le_add_right k i)).trans
      (Text.prefix_of_byteSize_le (hlines _) ha (by omega))
  rw [hsize] at hend
  obtain ⟨w, hw⟩ := Text.prefix_of_byteSize_le ha (hlines j) (by omega)
  have hzero : parenBalance a = 0 := by omega
  have hclose : Text.byteSize pre + 1 + Text.byteSize a = Text.byteSize (pre ++ '(' :: a) := by
    rw [Text.byteSize_append, Text.byteSize_cons, Nat.add_assoc]
    rfl
  -- the line does not end in front of the parenthesis, as a line feed or nothing follows its end
  rw [Text.joinLines_take tail rest j, ← hw, List.append_assoc, List.append_cancel_left_eq] at hab
  cases w with
  | nil =>
    cases hrest : rest.drop j with
    | nil => simp [hrest] at hab
    | cons line ls => simp [hrest] at hab
  | cons c w =>
    obtain ⟨rfl, _⟩ := List.cons.inj hab
    exact ⟨a, w, hclose, hopen, hzero, hbefore, hw.symm⟩

/-- What the line of that parenthesis holds from there on. -/
theorem slice_close (pre : Text) {a w : Text} {j : Nat} (hline : Text.joinLines (tail :: rest.take j) = a ++ w) :
    Text.slice (Text.joinLines ((pre ++ '(' :: tail) :: rest)) (Text.byteSize (pre ++ '(' :: a))
      (Text.lineStart ((pre ++ '(' :: tail) :: rest) (j + 1) - 1) = w := by
  have htext : Text.joinLines ((pre ++ '(' :: tail) :: rest) =
      (pre ++ '(' :: a) ++ (w ++ (rest.drop j).flatMap ('\n' :: ·)) := by
    rw [Text.joinLines_append_cons, Text.joinLines_take tail rest j, hline]
    simp
  have hend : Text.lineStart ((pre ++ '(' :: tail) :: rest) (j + 1) - 1 =
      Text.byteSize (pre ++ '(' :: a) + Text.byteSize w := by
    rw [Text.lineStart_cons_succ, Nat.add_sub_cancel, Text.joinLines_append_cons, hline, ← Text.byteSize_append]
    simp
  rw [htext, hend, Text.slice_append]

end Block

/-- **A block ends with its parenthesis.** Of lines of which the first holds `return (`, let the block be what follows
that parenthesis in all lines. If a parenthesis closes the block and nothing opens behind it on its line, all lines up
to that one belong to the block; behind each before it the tracker is inside, as deep as the parentheses between that
of `return (` and the end of the line are open, and behind it it is outside. If none closes the block, all lines
belong to it, and the tracker stays inside. -/
theorem feed_follows_block {first : Text} {m : Match} (hm : returnParen.find first = some m) (rest : List Text) :
    let ls := first :: rest
    let t := Text.joinLines ls
    let lineEnd := fun k => Text.lineStart ls (k + 1) - 1
    let opening := m.stop - 1
    (∀ close j, Text.blockEnd t opening = some close → Text.lineStart ls j ≤ close → close < Text.lineStart ls (j + 1) →
      '(' ∉ Text.slice t close (lineEnd j) →
      (outside.mark ls).take (j + 1) = List.replicate (j + 1) true ∧
      (∀ k < j, ∃ depth : Nat, 1 ≤ depth ∧ parenBalance (Text.slice t opening (lineEnd k)) = depth ∧
        outside.after (ls.take (k + 1)) = inside depth) ∧
      outside.after (ls.take (j + 1)) = outside) ∧
    (Text.blockEnd t opening = none →
      outside.mark ls = List.replicate ls.length true ∧
      ∀ k < ls.length, ∃ depth : Nat, 1 ≤ depth ∧ parenBalance (Text.slice t opening (lineEnd k)) = depth ∧
        outside.after (ls.take (k + 1)) = inside depth) := by
  obtain ⟨pre, tail, rfl, hpre⟩ := exists_paren hm
  intro ls t lineEnd opening
  have ht : t = pre ++ '(' :: Text.joinLines (tail :: rest) := Text.joinLines_append_cons pre '(' tail rest
  have hblock : Text.blockEnd t opening =
      Text.closeFrom '(' ')' 1 (Text.byteSize pre + 1) (Text.joinLines (tail :: rest)) := by
    rw [ht, show opening = Text.byteSize pre from hpre, Text.blockEnd_append_paren]
  constructor
  · intro close j hclose hstart hend hlast
    obtain ⟨a, w, rfl, hopen, hzero, hbefore, hline⟩ := exists_close (hblock.symm.trans hclose) hstart hend
    have hdepth : ∀ k < j, 1 ≤ parenBalance (Text.joinLines (('(' :: tail) :: rest.take k)) := by
      intro k hk
      rw [parenBalance_paren]
      exact hopen _ (hbefore k hk)
    obtain ⟨hafter, hmark⟩ := after_take hm hpre hdepth
    refine ⟨?_, fun k hk => exists_depth hm hpre fun i hi => hdepth i (Nat.lt_of_le_of_lt hi hk), ?_⟩
    · have hj : j ≤ rest.length := Nat.le_of_lt_succ (Text.lt_length_of_onLine hstart hend)
      rw [mark_take, hmark, List.length_take_of_le hj]
    · rw [hafter, parenBalance_paren, hline, parenBalance_append, parenBalance_cons, hzero]
      rw [slice_close pre hline] at hlast
      have hnonpos := parenBalance_nonpos (not_or.mp (mt List.mem_cons.mpr hlast)).2
      have hweight : parenWeight ')' = -1 := rfl
      exact ofBalance_of_nonpos (by omega)
  · intro hnone
    rw [hblock, Text.closeFrom_paren_eq_none_iff Nat.one_pos] at hnone
    have hopen (k : Nat) : 1 ≤ parenBalance (Text.joinLines (('(' :: tail) :: rest.take k)) := by
      rw [parenBalance_paren]
      exact hnone _ ⟨_, (Text.joinLines_take tail rest k).symm⟩
    exact ⟨(after_cons hm hpre fun k _ => hopen k).2, fun k _ => exists_depth hm hpre fun i _ => hopen i⟩

/-- A list that is returned over three lines, with a function in it that returns markup itself. -/
theorem feed_follows_block_list :
    let first := "  return (<ul>\x7bxs.map((é) => (".toList
    let ls := [first, "    <li/>".toList, "  ))\x7d</ul>);".toList, "\x7d".toList]
    (returnParen.find first).map (fun m => m.stop) = some 10 ∧
      Text.blockEnd (Text.joinLines ls) 9 = some 52 ∧ Text.lineStart ls 2 ≤ 52 ∧ 52 < Text.lineStart ls 3 ∧
      '(' ∉ Text.slice (Text.joinLines ls) 52 (Text.lineStart ls 3 - 1) ∧
      (outside.mark ls).take 3 = [true, true, true] ∧
      (∃ depth : Nat, parenBalance (Text.slice (Text.joinLines ls) 9 (Text.lineStart ls 2 - 1)) = depth ∧
        outside.after (ls.take 2) = inside depth) ∧
      outside.after (ls.take 3) = outside := by
  intro first ls
  have hfind : (returnParen.find first).map (fun m => m.stop) = some 10 := by decide
  obtain ⟨m, hm, hstop⟩ := Option.map_eq_some_iff.mp hfind
  have h := (feed_follows_block hm ls.tail).1 52 2
  simp only [hstop] at h
  obtain ⟨hmark, hinside, houtside⟩ := h (by decide) (by decide) (by decide) (by decide)
  obtain ⟨depth, _, hdepth⟩ := hinside 1 (by decide)
  exact ⟨hfind, by decide, by decide, by decide, by decide, hmark, ⟨depth, hdepth⟩, houtside⟩

end ReturnBlock

end Checkup
