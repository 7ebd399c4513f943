import Checkup.Proofs.Text.Bytes
import Checkup.Text.Position
import Checkup.Text.Word

/-!
# Where a search ends

The searches of a text give the offset of a character that is there: `findFrom?_eq_some` for the first one of a class,
`blockEnd_eq_some_iff` for the bracket that closes a block, which stands behind a text in which brackets match each
other (`Balanced`). No search ends in front of where it starts.
-/

namespace Checkup.Text

variable {p : Char → Bool} {c opener closer : Char} {depth pos offset : Nat} {t rest : Text}

theorem findFrom?_eq_some (h : findFrom? p pos t = some offset) :
    ∃ w x post, t = w ++ x :: post ∧ offset = pos + byteSize w ∧ p x = true ∧ ∀ y ∈ w, p y = false := by
  induction t generalizing pos with
  | nil => cases h
  | cons c t ih =>
    rw [findFrom?] at h
    split at h
    · rename_i hc
      cases h
      exact ⟨[], c, t, rfl, rfl, hc, List.forall_mem_nil _⟩
    · rename_i hc
      obtain ⟨w, x, post, rfl, rfl, hx, hw⟩ := ih h
      refine ⟨c :: w, x, post, rfl, ?_, hx, List.forall_mem_cons.mpr ⟨Bool.eq_false_iff.mpr hc, hw⟩⟩
      rw [byteSize_cons, Nat.add_assoc]

/-- A search for the first character of a class ends behind a text that has none and in front of one that starts with
one, or at the end. -/
theorem find?_append {body post : Text} (hbody : ∀ x ∈ body, p x = false) (hpost : ∀ x ∈ post.head?, p x = true) :
    (find? p (body ++ post)).getD (byteSize (body ++ post)) = byteSize body := by
  have from_pos (pos : Nat) :
      (findFrom? p pos (body ++ post)).getD (pos + byteSize (body ++ post)) = pos + byteSize body := by
    induction body generalizing pos with
    | nil =>
      cases post with
      | nil => rfl
      | cons c post =>
        rw [List.nil_append, findFrom?, if_pos (hpost c rfl)]
        rfl
    | cons c body ih =>
      obtain ⟨hc, hbody⟩ := List.forall_mem_cons.mp hbody
      rw [List.cons_append, findFrom?, hc, if_neg Bool.false_ne_true, byteSize_cons, byteSize_cons, ← Nat.add_assoc,
        ← Nat.add_assoc]
      exact ih hbody _
  simpa [find?] using from_pos 0

theorem dropBytes?_eq_some (h : dropBytes? offset t = some rest) : ∃ pre, t = pre ++ rest ∧ offset = byteSize pre := by
  induction t generalizing offset with
  | nil =>
    rw [dropBytes?] at h
    split at h
    · rename_i hzero
      exact ⟨[], Option.some.inj h, hzero⟩
    · cases h
  | cons c t ih =>
    rw [dropBytes?] at h
    split at h
    · rename_i hzero
      exact ⟨[], Option.some.inj h, hzero⟩
    · split at h
      · cases h
      · obtain ⟨pre, rfl, hpre⟩ := ih h
        exact ⟨c :: pre, rfl, by rw [byteSize_cons]; omega⟩

/-- The character that is found from an offset on is at the offset or behind it. -/
theorem le_of_findAfter (h : findAfter t pos c = some offset) : pos ≤ offset := by
  obtain ⟨rest, _, h⟩ := Option.bind_eq_some_iff.mp h
  obtain ⟨w, x, post, _, rfl, _⟩ := findFrom?_eq_some h
  exact Nat.le_add_right _ _

theorem findAfter_append (pre rest : Text) (c : Char) :
    findAfter (pre ++ c :: rest) (byteSize pre) c = some (byteSize pre) := by
  rw [findAfter, dropBytes?_append, Option.bind_some, findFrom?, if_pos (beq_self_eq_true c)]

/-! ## Brackets -/

/-- Whether the brackets of a kind match each other in a text. -/
inductive Balanced (opener closer : Char) : Text → Prop
  | nil : Balanced opener closer []
  | other {c : Char} {t : Text} : c ≠ opener → c ≠ closer → Balanced opener closer t → Balanced opener closer (c :: t)
  | nested {s t : Text} :
    Balanced opener closer s → Balanced opener closer t → Balanced opener closer (opener :: (s ++ closer :: t))

theorem balanced_of_forall (h : ∀ x ∈ t, x ≠ opener ∧ x ≠ closer) : Balanced opener closer t := by
  induction t with
  | nil => exact .nil
  | cons c t ih =>
    obtain ⟨hc, h⟩ := List.forall_mem_cons.mp h
    exact .other hc.1 hc.2 (ih h)

theorem Balanced.append {s : Text} (hs : Balanced opener closer s) (ht : Balanced opener closer t) :
    Balanced opener closer (s ++ t) := by
  induction hs with
  | nil => exact ht
  | other hopener hcloser _ ih => exact .other hopener hcloser ih
  | nested hs _ _ ih =>
    rw [List.cons_append, List.append_assoc]
    exact .nested hs ih

theorem balanced_flatMap {α : Type} {f : α → Text} {xs : List α} (h : ∀ x ∈ xs, Balanced opener closer (f x)) :
    Balanced opener closer (xs.flatMap f) := by
  induction xs with
  | nil => exact .nil
  | cons x xs ih =>
    obtain ⟨hx, h⟩ := List.forall_mem_cons.mp h
    exact hx.append (ih h)

/-- What is no bracket may be left out of a balanced text. -/
theorem Balanced.filter {p : Char → Bool} (hopener : p opener = true) (hcloser : p closer = true)
    (h : Balanced opener closer t) : Balanced opener closer (t.filter p) := by
  induction h with
  | nil => exact .nil
  | @other c t hc hc' _ ih =>
    rw [List.filter_cons]
    split
    · exact .other hc hc' ih
    · exact ih
  | nested _ _ ihs iht =>
    rw [List.filter_cons_of_pos hopener, List.filter_append, List.filter_cons_of_pos hcloser]
    exact .nested ihs iht

/-- What is no bracket may be put into a balanced text. -/
theorem Balanced.of_filter {p : Char → Bool} (hopener : p opener = true) (hcloser : p closer = true)
    (h : Balanced opener closer (t.filter p)) : Balanced opener closer t := by
  have hout {w : Text} (hw : ∀ x ∈ w, ¬ p x = true) : Balanced opener closer w :=
    balanced_of_forall fun x hx => ⟨fun e => hw x hx (e ▸ hopener), fun e => hw x hx (e ▸ hcloser)⟩
  generalize hu : t.filter p = u at h
  induction h generalizing t with
  | nil => exact hout (List.filter_eq_nil_iff.mp hu)
  | other hc hc' _ ih =>
    obtain ⟨w, v, rfl, hw, _, hv⟩ := List.filter_eq_cons_iff.mp hu
    exact (hout hw).append (.other hc hc' (ih hv))
  | nested _ _ ihs iht =>
    obtain ⟨w, v, rfl, hw, _, hv⟩ := List.filter_eq_cons_iff.mp hu
    obtain ⟨a, b, rfl, ha, hb⟩ := List.filter_eq_append_iff.mp hv
    obtain ⟨b, t, rfl, hb, _, ht⟩ := List.filter_eq_cons_iff.mp hb
    rw [← List.append_assoc]
    exact (hout hw).append (.nested ((ihs ha).append (hout hb)) (iht ht))

/-- The search for a closing bracket passes over a balanced text. -/
theorem Balanced.closeFrom_append (hne : opener ≠ closer) (h : Balanced opener closer t) (depth pos : Nat)
    (rest : Text) :
    closeFrom opener closer (depth + 1) pos (t ++ rest) = closeFrom opener closer (depth + 1)
      (pos + byteSize t) rest := by
  induction h generalizing depth pos rest with
  | nil => rfl
  | other hopener hcloser _ ih =>
    rw [List.cons_append, closeFrom, if_neg hopener, if_neg hcloser, ih, byteSize_cons, Nat.add_assoc]
  | nested _ _ ihs iht =>
    rw [List.cons_append, List.append_assoc, List.cons_append, closeFrom, if_pos rfl, ihs, closeFrom,
      if_neg (Ne.symm hne), if_pos rfl, if_neg (by omega), Nat.add_sub_cancel, iht]
    simp only [byteSize_cons, byteSize_append, Nat.add_assoc]

/-- Behind a balanced text there is a closing bracket, with which the search ends at depth 1 and goes on otherwise. -/
theorem exists_balanced (h : closeFrom opener closer (depth + 1) pos t = some offset) :
    ∃ inner rest, t = inner ++ closer :: rest ∧ Balanced opener closer inner ∧
      (depth = 0 → offset = pos + byteSize inner) ∧
      (0 < depth → closeFrom opener closer depth (pos + byteSize inner + closer.utf8Size) rest = some offset) := by
  induction hn : t.length using Nat.strongRecOn generalizing t depth pos with
  | ind n ih =>
  cases t with
  | nil => cases h
  | cons c t =>
    rw [List.length_cons] at hn
    rw [closeFrom] at h
    split at h
    · -- what is behind a bracket that opens here, up to its closing one, and then what follows that
      rename_i hc
      obtain ⟨s, rest, rfl, hs, _, hnext⟩ := ih t.length (by omega) h rfl
      simp only [List.length_append, List.length_cons] at hn
      obtain ⟨inner, rest, rfl, hinner, hzero, hpos⟩ := ih rest.length (by omega) (hnext (Nat.succ_pos depth)) rfl
      have hsize : pos + byteSize (opener :: (s ++ closer :: inner)) =
          pos + c.utf8Size + byteSize s + closer.utf8Size + byteSize inner := by
        simp only [hc, byteSize_cons, byteSize_append]
        omega
      rw [← hsize] at hzero hpos
      exact ⟨_, rest, by simp [hc], .nested hs hinner, hzero, hpos⟩
    · rename_i hopener
      split at h
      · -- the bracket closes here
        rename_i hc
        refine ⟨[], t, by rw [hc]; rfl, .nil, fun hzero => ?_, fun hpos => ?_⟩
        · rw [if_pos (by omega)] at h
          exact (Option.some.inj h).symm
        · rw [if_neg (by omega), Nat.add_sub_cancel] at h
          rw [byteSize_nil, Nat.add_zero]
          exact hc ▸ h
      · rename_i hcloser
        obtain ⟨inner, rest, rfl, hinner, hzero, hpos⟩ := ih t.length (by omega) h rfl
        rw [Nat.add_assoc pos, ← byteSize_cons] at hzero hpos
        exact ⟨c :: inner, rest, rfl, .other hopener hcloser hinner, hzero, hpos⟩

theorem ne_of_closer (hc : closer? opener = some closer) : opener ≠ closer := by
  unfold closer? at hc
  split at hc <;> cases hc <;> decide

/-- **The end of a block** is the closing bracket behind a balanced text. -/
theorem blockEnd_eq_some_iff (hc : closer? opener = some closer) (pre rest : Text) :
    blockEnd (pre ++ opener :: rest) (byteSize pre) = some offset ↔ ∃ inner post,
      rest = inner ++ closer :: post ∧ Balanced opener closer inner ∧ offset = byteSize (pre ++ opener :: inner) := by
  have hne := ne_of_closer hc
  have hsize (inner : Text) : byteSize (pre ++ opener :: inner) = byteSize pre + opener.utf8Size + byteSize inner := by
    rw [byteSize_append, byteSize_cons, Nat.add_assoc]
  rw [blockEnd, dropBytes?_append]
  simp only [hc, Option.bind_some, closeFrom, if_true, hsize]
  constructor
  · intro h
    obtain ⟨inner, post, rfl, hinner, hoffset, _⟩ := exists_balanced h
    exact ⟨inner, post, rfl, hinner, hoffset rfl⟩
  · rintro ⟨inner, post, rfl, hinner, rfl⟩
    rw [hinner.closeFrom_append hne, closeFrom, if_neg (Ne.symm hne), if_pos rfl, if_pos (Nat.le_refl 1)]

/-- A block has no end in the start of a balanced text. -/
theorem blockEnd_eq_none (hc : closer? opener = some closer) {u : Text} (h : Balanced opener closer (t ++ u))
    (pre : Text) :
    blockEnd (pre ++ opener :: t) (byteSize pre) = none := by
  have hne := ne_of_closer hc
  refine Option.eq_none_iff_forall_ne_some.mpr fun offset hend => ?_
  obtain ⟨inner, post, rfl, hinner, _⟩ := (blockEnd_eq_some_iff hc pre t).mp hend
  -- the search from behind the opening bracket both fails and ends
  have hfail : closeFrom opener closer 1 0 (inner ++ closer :: post ++ u ++ []) = none := h.closeFrom_append hne 0 0 []
  rw [List.append_nil, List.append_assoc, List.cons_append, hinner.closeFrom_append hne, closeFrom,
    if_neg (Ne.symm hne), if_pos rfl, if_pos (Nat.le_refl 1)] at hfail
  cases hfail

/-- A block starts with a bracket that opens. -/
theorem exists_of_blockEnd (h : blockEnd t pos = some offset) : ∃ opener closer pre rest,
    closer? opener = some closer ∧ t = pre ++ opener :: rest ∧ pos = byteSize pre := by
  rw [blockEnd] at h
  split at h
  · rename_i opener rest hrest
    obtain ⟨closer, hc, _⟩ := Option.bind_eq_some_iff.mp h
    obtain ⟨pre, rfl, rfl⟩ := dropBytes?_eq_some hrest
    exact ⟨opener, closer, pre, rest, hc, rfl, rfl⟩
  · cases h

/-- What stands between the brackets of a block, behind a text that ends with no word. -/
theorem exists_body_of_blockEnd (h : blockEnd t pos = some offset) : ∃ front body post, t = front ++ (body ++ post) ∧
    byteSize front = pos + 1 ∧ offset = byteSize front + byteSize body ∧ front.getLast?.any Char.isWord = false := by
  obtain ⟨opener, closer, pre, rest, hc, rfl, rfl⟩ := exists_of_blockEnd h
  obtain ⟨body, post, rfl, _, rfl⟩ := (blockEnd_eq_some_iff hc pre rest).mp h
  have hopener : opener.utf8Size = 1 ∧ opener.isWord = false := by
    unfold closer? at hc
    split at hc <;> cases hc <;> decide
  refine ⟨pre ++ [opener], body, closer :: post, by simp, ?_, ?_, ?_⟩
  · rw [byteSize_append, byteSize_singleton, hopener.1]
  · rw [byteSize_append, byteSize_append, byteSize_cons, byteSize_singleton, Nat.add_assoc]
  · rw [List.getLast?_concat, Option.any_some, hopener.2]

/-- Its end is not in front of that bracket. -/
theorem le_of_blockEnd (h : blockEnd t pos = some offset) : pos ≤ offset := by
  obtain ⟨opener, closer, pre, rest, hc, rfl, rfl⟩ := exists_of_blockEnd h
  obtain ⟨inner, post, _, _, rfl⟩ := (blockEnd_eq_some_iff hc pre rest).mp h
  rw [byteSize_append]
  exact Nat.le_add_right _ _

end Checkup.Text
