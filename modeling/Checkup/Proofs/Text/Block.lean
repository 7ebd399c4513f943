import Mathlib.Data.List.Basic
import Checkup.Proofs.Text.Bracket
import Checkup.Proofs.Text.Encoding

/-!
# Blocks by the numbers of their brackets

The search for the end of a block counts brackets of one kind. What it finds can be said with these numbers alone, on
the bytes of the text.

* `Unclosed`: each start of a text leaves a bracket open. The search passes over such a text, and the depth that it has
  reached is the difference of the numbers (`closeFrom_append`). So it ends where a text first stops to be one
  (`closeFrom_eq_some_iff`, `closeFrom_eq_none_iff`).
* `FirstLevel`: the first offset through which as many brackets close as open.
* `blockEnd_firstLevel`: a block ends there, and blocks of one kind are nested or disjoint.
-/

namespace Checkup.Text

variable {opener closer c : Char} {depth depth' pos offset i j k : Nat} {t a b rest : Text}

/-! ## The search by the numbers of brackets -/

/-- Whether each start of the text leaves a bracket open, if so many are open in front of it. -/
def Unclosed (opener closer : Char) (depth : Nat) (t : Text) : Prop :=
  ∀ p, p <+: t → p.count closer < depth + p.count opener

theorem Unclosed.depth_pos (h : Unclosed opener closer depth t) : 0 < depth := h [] List.nil_prefix

theorem unclosed_nil (hd : 0 < depth) : Unclosed opener closer depth [] := by
  intro p hp
  rw [List.prefix_nil.mp hp]
  exact hd

theorem Unclosed.mono (h : Unclosed opener closer depth t) (ha : a <+: t) : Unclosed opener closer depth a :=
  fun p hp => h p (hp.trans ha)

/-- The first character makes the depth greater or less for what follows it. -/
theorem unclosed_cons (hd : 0 < depth) (hdepth : depth' + [c].count closer = depth + [c].count opener) :
    Unclosed opener closer depth (c :: t) ↔ Unclosed opener closer depth' t := by
  have shift (p : Text) : (c :: p).count closer < depth + (c :: p).count opener ↔
      p.count closer < depth' + p.count opener := by
    rw [← List.singleton_append, List.count_append, List.count_append]
    omega
  constructor
  · intro h p hp
    exact (shift p).mp (h (c :: p) (List.cons_prefix_cons.mpr ⟨rfl, hp⟩))
  · intro h p hp
    rcases List.prefix_cons_iff.mp hp with rfl | ⟨q, rfl, hq⟩
    · exact hd
    · exact (shift q).mpr (h q hq)

/-- One step of the search that does not end it. -/
theorem closeFrom_cons (hne : opener ≠ closer) (hd : 0 < depth')
    (hdepth : depth' + [c].count closer = depth + [c].count opener)
    (pos : Nat) (t : Text) :
    closeFrom opener closer depth pos (c :: t) = closeFrom opener closer depth' (pos + c.utf8Size) t := by
  rw [closeFrom]
  split
  · rename_i hc
    subst hc
    rw [List.count_singleton_self, List.count_singleton, if_neg (by simpa using hne)] at hdepth
    rw [← hdepth]
    rfl
  · rename_i hopener
    rw [List.count_singleton (a := opener), if_neg (by simpa using hopener)] at hdepth
    split
    · rename_i hc
      subst hc
      rw [List.count_singleton_self] at hdepth
      rw [if_neg (by omega), ← Nat.add_zero depth, ← hdepth, Nat.add_sub_cancel]
    · rename_i hcloser
      rw [List.count_singleton, if_neg (by simpa using hcloser)] at hdepth
      rw [← Nat.add_zero depth', hdepth]
      rfl

/-- The depth behind one character, unless the search ends with it. -/
theorem exists_depth_cons (opener closer c : Char) (hd : 0 < depth) : c = closer ∧ depth = 1 ∨
    ∃ depth', 0 < depth' ∧ depth' + [c].count closer = depth + [c].count opener := by
  rw [List.count_singleton]
  by_cases hc : c = closer
  · rcases Nat.lt_or_eq_of_le hd with hlt | rfl
    · exact Or.inr ⟨depth + [c].count opener - 1, by omega, by rw [if_pos (by simpa using hc)]; omega⟩
    · exact Or.inl ⟨hc, rfl⟩
  · exact Or.inr ⟨depth + [c].count opener, Nat.add_pos_left hd _, by rw [if_neg (by simpa using hc), Nat.add_zero]⟩

/-- **The search passes over an unclosed text**, at the depth that the brackets of the text lead to. -/
theorem closeFrom_append (hne : opener ≠ closer) (h : Unclosed opener closer depth a) (pos : Nat) (rest : Text) :
    ∃ depth', 0 < depth' ∧ depth' + a.count closer = depth + a.count opener ∧
      closeFrom opener closer depth pos (a ++ rest) = closeFrom opener closer depth' (pos + byteSize a) rest := by
  induction a generalizing depth pos with
  | nil => exact ⟨depth, h.depth_pos, rfl, rfl⟩
  | cons c a ih =>
    rcases exists_depth_cons opener closer c h.depth_pos with ⟨rfl, rfl⟩ | ⟨d, hd, hdepth⟩
    · -- the first bracket would close the last one
      have hclose := h [c] (List.prefix_append [c] a)
      rw [List.count_singleton_self, List.count_singleton, if_neg (by simpa using hne.symm)] at hclose
      exact absurd hclose (Nat.lt_irrefl _)
    · obtain ⟨d', hd', hcount, heq⟩ := ih ((unclosed_cons h.depth_pos hdepth).mp h) (pos + c.utf8Size)
      refine ⟨d', hd', ?_, ?_⟩
      · rw [← List.singleton_append, List.count_append, List.count_append]
        omega
      · rw [List.cons_append, closeFrom_cons hne hd hdepth, heq, byteSize_cons, Nat.add_assoc]

/-- A text that is not unclosed has a bracket that closes the last open one. -/
theorem exists_close (hd : 0 < depth) (h : ¬ Unclosed opener closer depth t) :
    ∃ a b, t = a ++ closer :: b ∧ Unclosed opener closer depth a ∧ a.count closer + 1 = depth + a.count opener := by
  induction t generalizing depth with
  | nil => exact absurd (unclosed_nil hd) h
  | cons c t ih =>
    rcases exists_depth_cons opener closer c hd with ⟨rfl, rfl⟩ | ⟨d, hd', hdepth⟩
    · exact ⟨[], t, rfl, unclosed_nil hd, rfl⟩
    · obtain ⟨a, b, rfl, ha, hcount⟩ := ih hd' (mt (unclosed_cons hd hdepth).mpr h)
      refine ⟨c :: a, b, rfl, (unclosed_cons hd hdepth).mpr ha, ?_⟩
      rw [← List.singleton_append, List.count_append, List.count_append]
      omega

theorem closeFrom_eq_some (hne : opener ≠ closer) (h : Unclosed opener closer depth a)
    (hcount : a.count closer + 1 = depth + a.count opener) (pos : Nat) (b : Text) :
    closeFrom opener closer depth pos (a ++ closer :: b) = some (pos + byteSize a) := by
  obtain ⟨d, hd, hdepth, heq⟩ := closeFrom_append hne h pos (closer :: b)
  rw [heq, closeFrom, if_neg hne.symm, if_pos rfl, if_pos (by omega)]

/-- The search fails on unclosed texts only. -/
theorem closeFrom_eq_none_iff (hne : opener ≠ closer) (hd : 0 < depth) :
    closeFrom opener closer depth pos t = none ↔ Unclosed opener closer depth t := by
  constructor
  · intro hnone
    by_contra h
    obtain ⟨a, b, rfl, ha, hcount⟩ := exists_close hd h
    rw [closeFrom_eq_some hne ha hcount] at hnone
    cases hnone
  · intro h
    obtain ⟨_, _, _, heq⟩ := closeFrom_append hne h pos []
    rwa [List.append_nil] at heq

/-- The search ends with the first bracket that closes the last open one. -/
theorem closeFrom_eq_some_iff (hne : opener ≠ closer) (hd : 0 < depth) :
    closeFrom opener closer depth pos t = some offset ↔ ∃ a b, t = a ++ closer :: b ∧ Unclosed opener closer depth a ∧
      a.count closer + 1 = depth + a.count opener ∧ offset = pos + byteSize a := by
  constructor
  · intro hsome
    have h : ¬ Unclosed opener closer depth t := fun h => by
      rw [(closeFrom_eq_none_iff hne hd).mpr h] at hsome
      cases hsome
    obtain ⟨a, b, rfl, ha, hcount⟩ := exists_close hd h
    rw [closeFrom_eq_some hne ha hcount] at hsome
    exact ⟨a, b, rfl, ha, hcount, (Option.some.inj hsome).symm⟩
  · rintro ⟨a, b, rfl, ha, hcount, rfl⟩
    exact closeFrom_eq_some hne ha hcount pos b

/-! ## Blocks -/

theorem blockEnd_append (hc : closer? opener = some closer) (pre rest : Text) :
    blockEnd (pre ++ opener :: rest) (byteSize pre) = closeFrom opener closer 1 (byteSize (pre ++ [opener])) rest := by
  rw [blockEnd, dropBytes?_append, byteSize_append, byteSize_singleton]
  simp only [hc, Option.bind_some, closeFrom, if_true]

/-- A block ends with the first bracket behind which all are closed. -/
theorem blockEnd_eq_some_iff_count (hc : closer? opener = some closer) (pre rest : Text) :
    blockEnd (pre ++ opener :: rest) (byteSize pre) = some offset ↔ ∃ a b, rest = a ++ closer :: b ∧
      Unclosed opener closer 1 a ∧ a.count closer = a.count opener ∧ offset = byteSize (pre ++ opener :: a) := by
  rw [blockEnd_append hc, closeFrom_eq_some_iff (ne_of_closer hc) Nat.one_pos]
  refine exists₂_congr fun a b => and_congr_right fun _ => and_congr_right fun _ => and_congr ?_ ?_
  · rw [Nat.add_comm 1]
    exact Nat.add_right_cancel_iff
  · rw [← byteSize_append, List.append_assoc]
    rfl

theorem blockEnd_eq_none_iff (hc : closer? opener = some closer) (pre rest : Text) :
    blockEnd (pre ++ opener :: rest) (byteSize pre) = none ↔ Unclosed opener closer 1 rest := by
  rw [blockEnd_append hc, closeFrom_eq_none_iff (ne_of_closer hc) Nat.one_pos]

/-! ## Brackets among the bytes -/

variable {pre : Text} {start stop : Nat}

/-- The number of characters `c` of ASCII at the offsets from `start` through `stop`. -/
def countThrough (t : Text) (start stop : Nat) (c : Char) : Nat :=
  (((bytes t).take (stop + 1)).drop start).count c.toUInt8

/-- The first offset behind `start` through which as many brackets close as open. -/
structure FirstLevel (opener closer : Char) (t : Text) (start stop : Nat) : Prop where
  lt : start < stop
  lt_size : stop < byteSize t
  level : countThrough t start stop closer = countThrough t start stop opener
  first : ∀ j, start < j → j < stop → countThrough t start j closer ≠ countThrough t start j opener

theorem FirstLevel.eq {stop' : Nat} (h : FirstLevel opener closer t start stop)
    (h' : FirstLevel opener closer t start stop') :
    stop = stop' := by
  rcases Nat.lt_trichotomy stop stop' with hlt | heq | hlt
  · exact absurd h.level (h'.first stop h.lt hlt)
  · exact heq
  · exact absurd h'.level (h.first stop' h'.lt hlt)

theorem toNat_lt_of_closer (hc : closer? opener = some closer) : opener.toNat < 128 ∧ closer.toNat < 128 := by
  unfold closer? at hc
  split at hc <;> cases hc <;> decide

/-- Counted from an offset into a character, what the text holds from there through that character. -/
theorem countThrough_append {p : Text} {x : Char} (hc : c.toNat < 128) (pre rest : Text) (hle : byteSize p ≤ k)
    (hlt : k < byteSize (p ++ [x])) :
    countThrough (pre ++ (p ++ x :: rest)) (byteSize pre) (byteSize pre + k) c = (p ++ [x]).count c := by
  have htake : (bytes (pre ++ (p ++ x :: rest))).take (byteSize pre + (k + 1)) =
      bytes pre ++ (bytes (p ++ x :: rest)).take (k + 1) := by
    rw [bytes_append, ← length_bytes pre, List.take_length_add_append]
  rw [countThrough, Nat.add_assoc, htake, ← length_bytes pre, List.drop_left, count_take_bytes hc rest hle hlt]

/-- Each start of a block leaves a bracket open, down to the opening bracket itself. -/
theorem Unclosed.count_lt (hne : opener ≠ closer) (h : Unclosed opener closer 1 a) {p : Text} (hp : p <+: opener :: a)
    (hnil : p ≠ []) : p.count closer < p.count opener := by
  rcases List.prefix_cons_iff.mp hp with rfl | ⟨q, rfl, hq⟩
  · exact absurd rfl hnil
  · have hopen := h q hq
    rw [List.count_cons_of_ne hne, List.count_cons_self]
    omega

/-- Within a block fewer brackets close than open. -/
theorem Unclosed.countThrough_lt (hc : closer? opener = some closer) (h : Unclosed opener closer 1 a)
    (hstart : byteSize pre ≤ j) (hstop : j < byteSize (pre ++ opener :: a)) (rest : Text) :
    countThrough (pre ++ opener :: (a ++ rest)) (byteSize pre) j closer <
      countThrough (pre ++ opener :: (a ++ rest)) (byteSize pre) j opener := by
  obtain ⟨hopener, hcloser⟩ := toNat_lt_of_closer hc
  obtain ⟨k, rfl⟩ := Nat.exists_eq_add_of_le hstart
  rw [byteSize_append, Nat.add_lt_add_iff_left] at hstop
  obtain ⟨p, x, r, hsplit, hle, hlt⟩ := exists_reached hstop
  have htext : opener :: (a ++ rest) = p ++ x :: (r ++ rest) := by
    rw [← List.cons_append, hsplit, List.append_assoc, List.cons_append]
  have hprefix : p ++ [x] <+: opener :: a := ⟨r, by rw [hsplit, List.append_assoc, List.singleton_append]⟩
  rw [htext, countThrough_append hcloser pre _ hle hlt, countThrough_append hopener pre _ hle hlt]
  exact h.count_lt (ne_of_closer hc) hprefix (by simp)

/-- The bracket behind which all are closed is at the first offset through which as many close as open. -/
theorem Unclosed.firstLevel (hc : closer? opener = some closer) (h : Unclosed opener closer 1 a)
    (hcount : a.count closer = a.count opener) (pre b : Text) :
    FirstLevel opener closer (pre ++ opener :: (a ++ closer :: b)) (byteSize pre) (byteSize (pre ++ opener :: a)) := by
  have hne := ne_of_closer hc
  obtain ⟨hopener, hcloser⟩ := toNat_lt_of_closer hc
  -- through the closing bracket the counts are those of the block
  have hthrough {c : Char} (hc : c.toNat < 128) :
      countThrough (pre ++ opener :: (a ++ closer :: b)) (byteSize pre) (byteSize (pre ++ opener :: a)) c =
        (opener :: a ++ [closer]).count c := by
    rw [byteSize_append]
    exact countThrough_append hc pre b (Nat.le_refl _) (byteSize_lt_append _ (List.cons_ne_nil _ _))
  refine ⟨byteSize_lt_append _ (List.cons_ne_nil _ _), ?_, ?_, ?_⟩
  · rw [← List.cons_append, ← List.append_assoc]
    exact byteSize_lt_append _ (List.cons_ne_nil _ _)
  · have hlast : [closer].count opener = 0 := by rw [List.count_singleton, if_neg (by simpa using hne.symm)]
    rw [hthrough hcloser, hthrough hopener, List.count_append, List.count_append, hlast, List.count_singleton_self,
      List.count_cons_of_ne hne, List.count_cons_self, hcount]
  · intro j hstart hstop
    exact Nat.ne_of_lt (h.countThrough_lt hc (Nat.le_of_lt hstart) hstop _)

/-- An opening bracket in a block starts a block that ends in it. -/
theorem blockEnd_nested (hc : closer? opener = some closer) (h : Unclosed opener closer 1 (a ++ opener :: b))
    (hcount : (a ++ opener :: b).count closer = (a ++ opener :: b).count opener) (pre rest : Text) :
    ∃ i, blockEnd (pre ++ opener :: (b ++ rest)) (byteSize pre) = some i ∧ i < byteSize (pre ++ opener :: b) := by
  -- what is open in front of the bracket is closed behind it, and the bracket as well
  have hclosed : ¬ Unclosed opener closer 1 b := by
    intro hb
    have hfront := h a (List.prefix_append _ _)
    have hbehind := hb b (List.prefix_refl b)
    rw [List.count_append, List.count_append, List.count_cons_self, List.count_cons_of_ne (ne_of_closer hc)] at hcount
    omega
  obtain ⟨a', b', rfl, hopen, hlevel⟩ := exists_close Nat.one_pos hclosed
  refine ⟨byteSize (pre ++ opener :: a'), ?_, ?_⟩
  · exact (blockEnd_eq_some_iff_count hc _ _).mpr ⟨a', b' ++ rest, by simp, hopen, by omega, rfl⟩
  · rw [← List.cons_append, ← List.append_assoc]
    exact byteSize_lt_append _ (List.cons_ne_nil _ _)

/-- The search from an opening bracket comes to each place in the block at the depth that the brackets before it
leave open. -/
theorem blockEnd_eq_closeFrom (hc : closer? opener = some closer) (h : Unclosed opener closer 1 a) (pre rest : Text) :
    blockEnd (pre ++ opener :: (a ++ rest)) (byteSize pre) =
      closeFrom opener closer ((opener :: a).count opener - (opener :: a).count closer) (byteSize (pre ++ opener :: a))
        rest := by
  obtain ⟨depth, _, hdepth, heq⟩ := closeFrom_append (ne_of_closer hc) h (byteSize (pre ++ [opener])) rest
  rw [blockEnd_append hc, heq, List.count_cons_self, List.count_cons_of_ne (ne_of_closer hc), ← byteSize_append,
    List.append_assoc, List.singleton_append, Nat.add_comm, ← hdepth, Nat.add_sub_cancel]

/-- A block ends at the first offset through which as many of its brackets close as open. -/
theorem blockEnd_eq_some_iff_firstLevel (hc : closer? opener = some closer) (pre rest : Text) :
    blockEnd (pre ++ opener :: rest) (byteSize pre) = some i ↔
      FirstLevel opener closer (pre ++ opener :: rest) (byteSize pre) i := by
  constructor
  · intro hend
    obtain ⟨a, b, rfl, hopen, hlevel, rfl⟩ := (blockEnd_eq_some_iff_count hc pre rest).mp hend
    exact hopen.firstLevel hc hlevel pre b
  · intro hfirst
    by_cases hopen : Unclosed opener closer 1 rest
    · -- no offset is level
      have hbelow : i < byteSize (pre ++ opener :: rest) := hfirst.lt_size
      have hlt := hopen.countThrough_lt hc (Nat.le_of_lt hfirst.lt) hbelow []
      rw [List.append_nil, hfirst.level] at hlt
      exact absurd hlt (Nat.lt_irrefl _)
    · obtain ⟨a, b, rfl, ha, hlevel⟩ := exists_close Nat.one_pos hopen
      have hlevel : a.count closer = a.count opener := by omega
      rw [hfirst.eq (ha.firstLevel hc hlevel pre b)]
      exact (blockEnd_eq_some_iff_count hc pre _).mpr ⟨a, b, rfl, ha, hlevel, rfl⟩

/-- As far as the search goes, never more brackets close than open. -/
theorem countThrough_le (hc : closer? opener = some closer) (pre rest : Text) (hstart : byteSize pre ≤ j)
    (hstop : j < byteSize (pre ++ opener :: rest))
    (hend : ∀ i, blockEnd (pre ++ opener :: rest) (byteSize pre) = some i → j ≤ i) :
    countThrough (pre ++ opener :: rest) (byteSize pre) j closer ≤
      countThrough (pre ++ opener :: rest) (byteSize pre) j opener := by
  cases hblock : blockEnd (pre ++ opener :: rest) (byteSize pre) with
  | none =>
    have hlt := ((blockEnd_eq_none_iff hc pre rest).mp hblock).countThrough_lt hc hstart hstop []
    rw [List.append_nil] at hlt
    exact Nat.le_of_lt hlt
  | some i =>
    rcases Nat.lt_or_eq_of_le (hend i hblock) with hlt | rfl
    · obtain ⟨a, b, rfl, hopen, _, rfl⟩ := (blockEnd_eq_some_iff_count hc pre rest).mp hblock
      exact Nat.le_of_lt (hopen.countThrough_lt hc hstart hlt _)
    · exact Nat.le_of_eq ((blockEnd_eq_some_iff_firstLevel hc pre rest).mp hblock).level

/-- What the search passes over is not closed. -/
theorem unclosed_of_blockEnd (hc : closer? opener = some closer) (pre : Text)
    (hend : ∀ i, blockEnd (pre ++ opener :: (a ++ rest)) (byteSize pre) = some i → byteSize (pre ++ opener :: a) ≤ i) :
    Unclosed opener closer 1 a := by
  cases hblock : blockEnd (pre ++ opener :: (a ++ rest)) (byteSize pre) with
  | none => exact ((blockEnd_eq_none_iff hc pre _).mp hblock).mono (List.prefix_append a rest)
  | some i =>
    obtain ⟨a', b, hsplit, hopen, _, rfl⟩ := (blockEnd_eq_some_iff_count hc pre _).mp hblock
    have hle := hend _ hblock
    rw [byteSize_append, byteSize_append, byteSize_cons, byteSize_cons] at hle
    refine hopen.mono (prefix_of_byteSize_le (t := a ++ rest) (List.prefix_append a rest) ⟨_, hsplit.symm⟩ (by omega))

/-- An opening bracket in a block starts a block that ends in it. -/
theorem exists_blockEnd_of_mem (hc : closer? opener = some closer) (pre rest : Text) {k : Nat}
    (hend : blockEnd (pre ++ opener :: rest) (byteSize pre) = some i) (hlt : byteSize pre < k) (hin : k < i)
    (hbyte : (bytes (pre ++ opener :: rest))[k]? = some opener.toUInt8) :
    ∃ i', blockEnd (pre ++ opener :: rest) k = some i' ∧ i' < i := by
  obtain ⟨a, b, rfl, hopen, hlevel, rfl⟩ := (blockEnd_eq_some_iff_count hc pre rest).mp hend
  obtain ⟨pre', rest', htext, rfl⟩ := (getElem?_bytes_iff (toNat_lt_of_closer hc).1).mp hbyte
  -- the bracket stands behind the start of the block, and in front of its end
  obtain ⟨w, rfl, hw⟩ := exists_between htext hlt
  have hsplit : (pre ++ opener :: w) ++ opener :: rest' = (pre ++ opener :: a) ++ closer :: b := by
    rw [List.append_assoc, List.append_assoc, List.cons_append, List.cons_append, hw]
  obtain ⟨v, hv, rfl⟩ := exists_between hsplit hin
  obtain rfl : a = w ++ opener :: v := by simpa using hv
  obtain ⟨i', hi', hlast⟩ := blockEnd_nested hc hopen hlevel (pre ++ opener :: w) (closer :: b)
  exact ⟨i', by simpa using hi', by simpa using hlast⟩

theorem getElem?_bytes_blockEnd (hc : closer? opener = some closer) (pre rest : Text)
    (hend : blockEnd (pre ++ opener :: rest) (byteSize pre) = some i) :
    (bytes (pre ++ opener :: rest))[i]? = some closer.toUInt8 := by
  obtain ⟨a, b, rfl, _, _, rfl⟩ := (blockEnd_eq_some_iff_count hc pre rest).mp hend
  exact (getElem?_bytes_iff (toNat_lt_of_closer hc).2).mpr ⟨pre ++ opener :: a, b, by simp, rfl⟩

/-- **Blocks end at their level.** A block starts with a bracket that opens, and it ends at the first offset behind that
bracket through which as many brackets of its kind close as open; there the matching bracket stands. Up to the end, or
up to the end of the text if there is none, never more of them close than open: the search goes on with the depth that
they leave open, which is not zero. An opening bracket of the same kind in the block starts a block that ends in it, so
two blocks of one kind are nested or disjoint. -/
theorem blockEnd_firstLevel (t : Text) (o : Nat) :
    (∀ i, blockEnd t o = some i ↔ ∃ opener closer, closer? opener = some closer ∧
      (bytes t)[o]? = some opener.toUInt8 ∧ FirstLevel opener closer t o i) ∧
    ∀ opener closer, closer? opener = some closer → (bytes t)[o]? = some opener.toUInt8 →
      (∀ i, blockEnd t o = some i → (bytes t)[i]? = some closer.toUInt8) ∧
      (∀ j, o ≤ j → j < byteSize t → (∀ i, blockEnd t o = some i → j ≤ i) →
        countThrough t o j closer ≤ countThrough t o j opener) ∧
      (∀ w rest, dropBytes? o t = some (w ++ rest) → w ≠ [] → (∀ i, blockEnd t o = some i → o + byteSize w ≤ i) →
        w.count closer < w.count opener ∧
          blockEnd t o = closeFrom opener closer (w.count opener - w.count closer) (o + byteSize w) rest) ∧
      (∀ i o', blockEnd t o = some i → o < o' → o' < i → (bytes t)[o']? = some opener.toUInt8 →
        ∃ i', blockEnd t o' = some i' ∧ i' < i) ∧
      ∀ i o' i', blockEnd t o = some i → o < o' → (bytes t)[o']? = some opener.toUInt8 → blockEnd t o' = some i' →
        i < o' ∨ i' < i := by
  constructor
  · intro i
    constructor
    · intro hend
      obtain ⟨opener, closer, pre, rest, hc, rfl, rfl⟩ := exists_of_blockEnd hend
      exact ⟨opener, closer, hc, (getElem?_bytes_iff (toNat_lt_of_closer hc).1).mpr ⟨pre, rest, rfl, rfl⟩,
        (blockEnd_eq_some_iff_firstLevel hc pre rest).mp hend⟩
    · rintro ⟨opener, closer, hc, hbyte, hfirst⟩
      obtain ⟨pre, rest, rfl, rfl⟩ := (getElem?_bytes_iff (toNat_lt_of_closer hc).1).mp hbyte
      exact (blockEnd_eq_some_iff_firstLevel hc pre rest).mpr hfirst
  · intro opener closer hc hbyte
    obtain ⟨pre, rest, rfl, rfl⟩ := (getElem?_bytes_iff (toNat_lt_of_closer hc).1).mp hbyte
    have hlast := fun i => getElem?_bytes_blockEnd (i := i) hc pre rest
    have hnested := fun i k => exists_blockEnd_of_mem (i := i) (k := k) hc pre rest
    refine ⟨hlast, fun j => countThrough_le hc pre rest, ?_, hnested, ?_⟩
    · intro w rest' hdrop hnil hend
      rw [dropBytes?_append] at hdrop
      obtain ⟨a, rfl, rfl⟩ : ∃ a, w = opener :: a ∧ rest = a ++ rest' := by
        cases w with
        | nil => exact absurd rfl hnil
        | cons x a => simpa [eq_comm] using hdrop
      rw [← byteSize_append] at hend ⊢
      have hopen := unclosed_of_blockEnd hc pre hend
      exact ⟨hopen.count_lt (ne_of_closer hc) (List.prefix_refl _) hnil, blockEnd_eq_closeFrom hc hopen pre rest'⟩
    · intro i o' i' hend hlt hbyte' hend'
      rcases Nat.lt_trichotomy i o' with hdisjoint | rfl | hin
      · exact Or.inl hdisjoint
      · -- the two brackets differ
        obtain ⟨hopener, hcloser⟩ := toNat_lt_of_closer hc
        have hsame : closer.toUInt8 = opener.toUInt8 := Option.some.inj ((hlast i hend).symm.trans hbyte')
        exact absurd (eq_of_toUInt8_eq hcloser hopener hsame).symm (ne_of_closer hc)
      · obtain ⟨i'', heq, hlt'⟩ := hnested i o' hend hlt hin hbyte'
        rw [heq] at hend'
        exact Or.inr (Option.some.inj hend' ▸ hlt')

/-- A body behind a character of two bytes, with a block in it, and in that one a bracket of a string that counts as
well. -/
theorem blockEnd_firstLevel_nested :
    let t := "é \x7b if (x) \x7b f(\"\x7b\"); \x7d \x7d \x7d".toList
    closer? '\x7b' = some '\x7d' ∧ (bytes t)[3]? = some ('\x7b').toUInt8 ∧ blockEnd t 3 = some 26 ∧
      FirstLevel '\x7b' '\x7d' t 3 26 ∧ (bytes t)[26]? = some ('\x7d').toUInt8 ∧
      countThrough t 3 22 '\x7d' ≤ countThrough t 3 22 '\x7b' ∧
      blockEnd t 3 = closeFrom '\x7b' '\x7d' 1 12 "\x7b f(\"\x7b\"); \x7d \x7d \x7d".toList ∧
      (∃ i, blockEnd t 12 = some i ∧ i < 26) ∧ (24 < 26 ∨ 26 < 12) := by
  intro t
  obtain ⟨hiff, hrest⟩ := blockEnd_firstLevel t 3
  have hc : closer? '\x7b' = some '\x7d' := rfl
  have hbyte : (bytes t)[3]? = some ('\x7b').toUInt8 := by decide
  have hinner : (bytes t)[12]? = some ('\x7b').toUInt8 := by decide
  have hfirst : FirstLevel '\x7b' '\x7d' t 3 26 := by
    have hbelow : ∀ j < 26, 3 < j → countThrough t 3 j '\x7d' ≠ countThrough t 3 j '\x7b' := by decide
    exact ⟨by decide, by decide, by decide, fun j hstart hstop => hbelow j hstop hstart⟩
  have hend : blockEnd t 3 = some 26 := (hiff 26).mpr ⟨_, _, hc, hbyte, hfirst⟩
  obtain ⟨hlast, hle, hcounter, hnested, hapart⟩ := hrest '\x7b' '\x7d' hc hbyte
  have hat (w : Nat) (hw : w ≤ 26) (i : Nat) (hi : blockEnd t 3 = some i) : w ≤ i :=
    Option.some.inj (hend.symm.trans hi) ▸ hw
  exact ⟨hc, hbyte, hend, hfirst, hlast 26 hend, hle 22 (by decide) (by decide) (hat 22 (by decide)),
    (hcounter "\x7b if (x) ".toList "\x7b f(\"\x7b\"); \x7d \x7d \x7d".toList (by decide) (by decide)
    (hat 12 (by decide))).2, hnested 26 12 hend (by decide) (by decide) hinner,
    (hapart 26 12 24 hend (by decide) hinner (by decide)).symm⟩

end Checkup.Text
