import Checkup.Proofs.Source.BraceFloor

/-!
# Trackers that differ in a scope

Two trackers are asked to do the same from where one of them has a scope that the other one may lack. Scopes that are
open inside of that scope and were announced before it are never the innermost one, so the other tracker may lack them
too.

* `BraceScope.Parted`: the second tracker lacks scopes that are hidden behind one with a tag, and maybe that one itself.
* `Parted.apply`: a step keeps the trackers parted until the scope with the tag closes, which makes them equal.
* `Alike.innermost`: the innermost scope of both is the same unless it is the one that the second tracker lacks.
-/

namespace Checkup.BraceScope

variable {α : Type} {floor depth : Nat} {tag : α} {kept : Bool} {s twin : BraceScope α} {m : Mark α} {step : Step α}
  {earlier copies : List (Mark α)} {t : Text}

/-- Whether the mark is that of an open scope which was announced at the depth. -/
structure Mark.Owns (floor : Nat) (tag : α) (m : Mark α) : Prop where
  isOpen : m.isOpen = true
  depth : m.depth = floor
  tag : m.tag = tag

/-- Whether the second tracker has the same scopes as the first one, but for those that are hidden behind a scope with
the tag. That scope is kept if the flag is set. -/
structure Parted (floor : Nat) (tag : α) (kept : Bool) (s twin : BraceScope α) : Prop where
  depth_eq : twin.depth = s.depth
  exists_marks : ∃ earlier m copies later, s.marks = earlier ++ m :: later ∧
    twin.marks = earlier.filter (·.depth < floor) ++ (copies ++ later) ∧
    (∀ x ∈ earlier, floor ≤ x.depth → x.isOpen = true) ∧ m.Owns floor tag ∧ (∀ x ∈ copies, x.Owns floor tag) ∧
    (kept = true → copies ≠ [])

theorem eq_of_marks (hdepth : twin.depth = s.depth) (hmarks : twin.marks = s.marks) : twin = s := by
  cases s
  cases twin
  exact congrArg₂ BraceScope.mk hdepth hmarks

theorem filter_filterMap_next (depth : Nat) (step : Step α) (marks : List (Mark α)) :
    (marks.filterMap fun m => m.next depth step).filter (·.depth < floor) =
      (marks.filter (·.depth < floor)).filterMap fun m => m.next depth step := by
  rw [List.filter_filterMap, List.filterMap_filter]
  refine List.filterMap_congr fun m _ => ?_
  cases hnext : m.next depth step with
  | none => rw [Option.filter_none, ite_self]
  | some m' => rw [Option.filter_some, Mark.next_depth hnext]

namespace Parted

/-- **A step** keeps two trackers parted, or makes them equal. -/
theorem apply (h : Parted floor tag kept s twin) (step : Step α) :
    step.apply twin = step.apply s ∨ Parted floor tag kept (step.apply s) (step.apply twin) := by
  obtain ⟨hdepth, earlier, m, copies, later, hs, htwin, hearlier, hm, hcopies, hkept⟩ := h
  have hdepth' : (step.apply twin).depth = (step.apply s).depth := by rw [depth_apply, depth_apply, hdepth]
  have hmarks := apply_marks s step
  have hmarks' := apply_marks twin step
  rw [hs, List.filterMap_append, List.append_assoc] at hmarks
  rw [htwin, hdepth', hdepth, List.filterMap_append, List.filterMap_append, ← filter_filterMap_next, List.append_assoc,
    List.append_assoc] at hmarks'
  obtain ⟨d, hd⟩ : ∃ d, (step.apply s).depth = d := ⟨_, rfl⟩
  rw [hd] at hmarks hmarks'
  by_cases hback : step.text = ['\x7d'] ∧ d ≤ floor
  · -- the brace closes the scope and what hides behind it
    have hclose {x : Mark α} (hopen : x.isOpen = true) (hx : floor ≤ x.depth) : x.next d step = none := by
      rw [Mark.next_of_isOpen hopen, if_pos ⟨hback.1, Nat.le_trans hback.2 hx⟩]
    have hgone : copies.filterMap (fun x => x.next d step) = [] :=
      List.filterMap_eq_nil_iff.mpr fun x hx => hclose (hcopies x hx).isOpen (Nat.le_of_eq (hcopies x hx).depth.symm)
    have hleft : (earlier.filterMap fun x => x.next d step).filter (·.depth < floor) =
        earlier.filterMap fun x => x.next d step := by
      refine List.filter_eq_self.mpr fun x' hx' => decide_eq_true (Nat.lt_of_not_le fun hfloor => ?_)
      obtain ⟨x, hx, hnext⟩ := List.mem_filterMap.mp hx'
      rw [Mark.next_depth hnext] at hfloor
      rw [hclose (hearlier x hx hfloor) hfloor] at hnext
      cases hnext
    simp only [List.filterMap_cons, hclose hm.isOpen (Nat.le_of_eq hm.depth.symm)] at hmarks
    rw [hgone, hleft, List.nil_append, ← hmarks] at hmarks'
    exact Or.inl (eq_of_marks hdepth' hmarks')
  · have hstay {x : Mark α} (hx : x.Owns floor tag) : x.next d step = some x := by
      rw [Mark.next_of_isOpen hx.isOpen, hx.depth, if_neg hback]
    have hcopies' : copies.filterMap (fun x => x.next d step) = copies := by
      rw [List.filterMap_congr fun x hx => hstay (hcopies x hx), List.filterMap_some]
    simp only [List.filterMap_cons, hstay hm] at hmarks
    rw [hcopies'] at hmarks'
    refine Or.inr ⟨hdepth', _, m, copies, _, hmarks, hmarks', fun x' hx' hfloor => ?_, hm, hcopies, hkept⟩
    obtain ⟨x, hx, hnext⟩ := List.mem_filterMap.mp hx'
    rw [Mark.next_depth hnext] at hfloor
    have hopen := hearlier x hx hfloor
    rw [Mark.next_of_isOpen hopen] at hnext
    split_ifs at hnext
    cases hnext
    exact hopen

/-- The innermost scope is the same, unless it is the one with the tag and the second tracker lacks that. -/
theorem innermost (h : Parted floor tag kept s twin) :
    twin.innermost = s.innermost ∨ (kept = false ∧ s.innermost = some tag) := by
  obtain ⟨_, earlier, m, copies, later, hs, htwin, _, hm, hcopies, hkept⟩ := h
  have hfind : (earlier ++ m :: later).reverse.find? Mark.isOpen = (later.reverse.find? Mark.isOpen).or (some m) := by
    rw [List.reverse_append, List.reverse_cons, List.append_assoc, List.find?_append, List.singleton_append,
      List.find?_cons_of_pos hm.isOpen]
  rw [BraceScope.innermost, BraceScope.innermost, hs, htwin, hfind]
  cases hlater : later.reverse.find? Mark.isOpen with
  | some x => simp [hlater]
  | none =>
    cases kept with
    | false => exact Or.inr ⟨rfl, by simp [hm.tag]⟩
    | true =>
      obtain ⟨copies, x, rfl⟩ := List.eq_nil_or_concat copies |>.resolve_left (hkept rfl)
      have hx := hcopies x (by simp)
      left
      simp [hlater, hx.isOpen, hx.tag, hm.tag]

end Parted

/-! ## Trackers that are parted or equal -/

/-- Whether two trackers are equal but for a scope and what it hides. -/
def Alike (floor : Nat) (tag : α) (kept : Bool) (s twin : BraceScope α) : Prop :=
  twin = s ∨ Parted floor tag kept s twin

namespace Alike

theorem run (h : Alike floor tag kept s twin) (steps : List (Step α)) :
    Alike floor tag kept (steps.foldl Step.apply s) (steps.foldl Step.apply twin) := by
  induction steps generalizing s twin with
  | nil => exact h
  | cons step steps ih =>
    rcases h with rfl | h
    · exact Or.inl rfl
    · exact ih (h.apply step)

theorem feed (h : Alike floor tag kept s twin) (t : Text) : Alike floor tag kept (s.feed t) (twin.feed t) := by
  have hrun := h.run (Call.feed t).steps
  rwa [foldl_steps, foldl_steps] at hrun

theorem announce (h : Alike floor tag kept s twin) (tag' : α) :
    Alike floor tag kept (s.announce tag') (twin.announce tag') :=
  h.run [.announce tag']

/-- **The innermost scope** of both trackers is the same, if the second one keeps the scope with the tag or that is
not the innermost one. -/
theorem innermost (h : Alike floor tag kept s twin) (hother : kept = true ∨ s.innermost ≠ some tag) :
    twin.innermost = s.innermost := by
  rcases h with rfl | h
  · rfl
  · refine h.innermost.resolve_right ?_
    rintro ⟨rfl, hinner⟩
    exact hother.elim Bool.false_ne_true fun hne => hne hinner

end Alike

/-! ## The brace that opens the scope -/

/-- A mark behind a brace that leads to a depth. -/
def Mark.behindBrace (depth : Nat) (m : Mark α) : Mark α := { m with isOpen := m.isOpen || m.depth < depth }

theorem feedChar_brace (s : BraceScope α) :
    s.feedChar '\x7b' = ⟨s.depth + 1, s.marks.map (Mark.behindBrace (s.depth + 1))⟩ := rfl

theorem Mark.owns_behindBrace (hdepth : m.depth = floor) (htag : m.tag = tag) :
    (m.behindBrace (floor + 1)).Owns floor tag :=
  ⟨by simp [behindBrace, hdepth], hdepth, htag⟩

/-- Two trackers become parted when the brace comes that opens the scope. -/
theorem parted_of_brace {waiting : Mark α} (hdepth : waiting.depth = floor) (htag : waiting.tag = tag)
    (hearlier : ∀ x ∈ earlier, floor ≤ x.depth → x.depth = floor)
    (hcopies : ∀ x ∈ copies, x.depth = floor ∧ x.tag = tag)
    (hkept : kept = true → copies ≠ []) :
    Parted floor tag kept (feedChar ⟨floor, earlier ++ [waiting]⟩ '\x7b')
      (feedChar ⟨floor, earlier.filter (·.depth < floor) ++ copies⟩ '\x7b') := by
  rw [feedChar_brace, feedChar_brace]
  refine ⟨rfl, earlier.map (Mark.behindBrace (floor + 1)), waiting.behindBrace (floor + 1),
    copies.map (Mark.behindBrace (floor + 1)), [], ?_, ?_, ?_, Mark.owns_behindBrace hdepth htag, ?_, ?_⟩
  · exact List.map_append
  · rw [List.append_nil, List.map_append, List.filter_map]
    rfl
  · refine List.forall_mem_map.mpr fun x hx hfloor => ?_
    exact (Mark.owns_behindBrace (hearlier x hx hfloor) rfl).isOpen
  · exact List.forall_mem_map.mpr fun x hx => Mark.owns_behindBrace (hcopies x hx).1 (hcopies x hx).2
  · simpa using hkept

theorem foldl_feedChar_of_not_mem (hopener : '\x7b' ∉ t) (hcloser : '\x7d' ∉ t) (s : BraceScope α) :
    t.foldl feedChar s = s := by
  induction t with
  | nil => rfl
  | cons c t ih =>
    obtain ⟨hc, hopener⟩ := List.ne_and_not_mem_of_not_mem_cons hopener
    obtain ⟨hc', hcloser⟩ := List.ne_and_not_mem_of_not_mem_cons hcloser
    rw [List.foldl_cons, feedChar, if_neg (Ne.symm hc), if_neg (Ne.symm hc')]
    exact ih hopener hcloser

theorem feed_append (s : BraceScope α) (t u : Text) : s.feed (t ++ u) = (t.foldl feedChar s).feed u := by
  rw [feed, List.foldl_append, feed]

/-- **The rest of a piece that opens the scope** leaves the trackers alike. -/
theorem alike_of_brace {waiting : Mark α} (hdepth : waiting.depth = floor) (htag : waiting.tag = tag)
    (hearlier : ∀ x ∈ earlier, floor ≤ x.depth → x.depth = floor)
    (hcopies : ∀ x ∈ copies, x.depth = floor ∧ x.tag = tag)
    (hkept : kept = true → copies ≠ []) (hopener : '\x7b' ∉ t) (hcloser : '\x7d' ∉ t) (body : Text) :
    Alike floor tag kept (feed ⟨floor, earlier ++ [waiting]⟩ (t ++ '\x7b' :: body))
      (feed ⟨floor, earlier.filter (·.depth < floor) ++ copies⟩ (t ++ '\x7b' :: body)) := by
  rw [feed_append, feed_append, foldl_feedChar_of_not_mem hopener hcloser, foldl_feedChar_of_not_mem hopener hcloser]
  exact Alike.feed (Or.inr (parted_of_brace hdepth htag hearlier hcopies hkept)) body

end Checkup.BraceScope
