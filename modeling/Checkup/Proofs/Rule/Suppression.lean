import Checkup.Proofs.Text.Occurrence
import Checkup.Rule.Suppression
import Mathlib.Data.List.Infix
import Mathlib.Data.List.TakeWhile

/-!
# What comments silence

`Covered` says which findings of a file a comment silences, without the scan of a line: by an occurrence of the marker
on the line, or on a comment line right above, that is about the rule of the finding (`Concerns`).

* `lineSilences_iff`: the scan finds out whether some occurrence is about the rule. It goes on behind each occurrence
  and so misses those that overlap with one; but the only overlap is that of `re` at both ends of the marker, and then
  the first occurrence is about all rules.
* `keepUnsuppressed_uncovered`: the findings that are left are those that are not covered.
-/

namespace Checkup

variable {line behind list inside rule : Text}

/-! ## One occurrence -/

/-- What is listed between brackets: the text up to the first closing bracket, or the whole text. -/
def UpToBracket (list inside : Text) : Prop := ']' ∉ inside ∧ (list = inside ∨ ∃ rest, list = inside ++ ']' :: rest)

/-- Whether an occurrence of the marker with this text behind it is about the rule: it is no marker for files, and has
no list or one that names the rule. -/
def Concerns (behind rule : Text) : Prop :=
  ¬ fileMarkerTail <+: behind ∧
    ((∀ list, behind ≠ '[' :: list) ∨
      ∃ list inside entry, behind = '[' :: list ∧ UpToBracket list inside ∧ Text.IsPiece (· == ',') inside entry ∧
        Text.trim entry = rule)

theorem upToBracket_iff : UpToBracket list inside ↔ inside = Text.firstPiece (· == ']') list := by
  constructor
  · rintro ⟨hno, hlist⟩
    have hinside : ∀ c ∈ inside, (!(c == ']')) = true := fun c hc => by
      have : c ≠ ']' := fun e => hno (e ▸ hc)
      simpa using this
    rcases hlist with rfl | ⟨rest, rfl⟩
    · exact (List.takeWhile_eq_self_iff.mpr hinside).symm
    · rw [Text.firstPiece, List.takeWhile_append_of_pos hinside]
      simp
  · rintro rfl
    refine ⟨fun h => absurd (List.mem_takeWhile_imp h) (by simp), ?_⟩
    have hsplit : Text.firstPiece (· == ']') list ++ list.dropWhile (fun c => !(c == ']')) = list :=
      List.takeWhile_append_dropWhile
    cases hdrop : list.dropWhile (fun c => !(c == ']')) with
    | nil =>
      rw [hdrop, List.append_nil] at hsplit
      exact Or.inl hsplit.symm
    | cons c rest =>
      have hc := List.head?_dropWhile_not (fun c => !(c == ']')) list
      rw [hdrop] at hc hsplit
      obtain rfl : c = ']' := by simpa using hc
      exact Or.inr ⟨rest, hsplit.symm⟩

theorem markerSilences_iff : markerSilences behind rule = true ↔ Concerns behind rule := by
  unfold markerSilences Concerns
  by_cases hfile : fileMarkerTail <+: behind
  · simp [Text.startsWith, List.isPrefixOf_iff_prefix, hfile]
  · have hstart : Text.startsWith fileMarkerTail behind = false :=
      Bool.eq_false_iff.mpr fun h => hfile (List.isPrefixOf_iff_prefix.mp h)
    rw [if_neg (by simp [hstart]), and_iff_right hfile]
    split
    · rename_i list
      rw [List.any_eq_true]
      constructor
      · rintro ⟨entry, hentry, htrim⟩
        exact Or.inr ⟨list, _, entry, rfl, upToBracket_iff.mpr rfl, Text.mem_split.mp hentry, eq_of_beq htrim⟩
      · rintro (h | ⟨_, inside, entry, heq, hinside, hentry, htrim⟩)
        · exact absurd rfl (h list)
        · obtain ⟨-, rfl⟩ := List.cons.inj heq
          rw [upToBracket_iff.mp hinside] at hentry
          exact ⟨entry, Text.mem_split.mpr hentry, beq_iff_eq.mpr htrim⟩
    · rename_i hlist
      simpa using Or.inl hlist

/-! ## The scan of a line -/

/-- Whether the line holds an occurrence of the marker that is about the rule. -/
def Silences (line rule : Text) : Prop :=
  ∃ before behind, line = before ++ (ignoreMarker ++ behind) ∧ Concerns behind rule

theorem lineSilences_skip (skip : Nat) : lineSilences rule skip line = lineSilences rule 0 (line.drop skip) := by
  induction line generalizing skip with
  | nil => simp [lineSilences]
  | cons c t ih =>
    cases skip with
    | zero => rfl
    | succ skip => rw [lineSilences, if_neg (Nat.succ_ne_zero skip), Nat.add_sub_cancel, ih, List.drop_succ_cons]

theorem length_ignoreMarker : ignoreMarker.length = 19 := by decide

/-- The ends of the marker that the marker starts with as well. -/
theorem border_ignoreMarker :
    ∀ u ∈ ignoreMarker.tails, u <+: ignoreMarker → u = [] ∨ u = ignoreMarker ∨ u = ['r', 'e'] := by
  decide

/-- Behind an occurrence that overlaps with the next one stands the rest of that one, which is neither the tail of a
marker for files nor a list. -/
theorem concerns_of_overlap (h : ['r', 'e'] ++ behind = ignoreMarker ++ line) : Concerns behind rule := by
  have hmarker : ignoreMarker = ['r', 'e'] ++ 'a' :: "ct-health-ignore".toList := by decide
  rw [hmarker, List.append_assoc, List.append_cancel_left_eq, List.cons_append] at h
  have htail : fileMarkerTail = '-' :: "file".toList := by decide
  subst h
  refine ⟨fun hfile => ?_, Or.inl fun list h => ?_⟩
  · rw [htail, List.cons_prefix_cons] at hfile
    exact absurd hfile.1 (by decide)
  · exact absurd (List.cons.inj h).1 (by decide)

/-- If some occurrence in a line that starts with one is about the rule, then so is the first one, or one that lies
behind it. -/
theorem concerns_or_silences {before behind' : Text}
    (h : ignoreMarker ++ behind = before ++ (ignoreMarker ++ behind'))
    (hc : Concerns behind' rule) : Concerns behind rule ∨ Silences behind rule := by
  rcases List.append_eq_append_iff.mp h with ⟨u, -, hu⟩ | ⟨u, hu, hbehind⟩
  · exact Or.inr ⟨u, behind', hu, hc⟩
  · have hsuffix : u ∈ ignoreMarker.tails := (List.mem_tails _ _).mpr ⟨before, hu.symm⟩
    have hprefix : u <+: ignoreMarker := by
      refine List.prefix_of_prefix_length_le (List.prefix_append u behind) (hbehind ▸ List.prefix_append _ _) ?_
      rw [hu, List.length_append]
      omega
    rcases border_ignoreMarker u hsuffix hprefix with rfl | rfl | rfl
    · exact Or.inr ⟨[], behind', hbehind.symm, hc⟩
    · exact Or.inl (List.append_cancel_left hbehind ▸ hc)
    · exact Or.inl (concerns_of_overlap hbehind.symm)

theorem not_silences_nil : ¬ Silences [] rule := by
  rintro ⟨before, behind, h, -⟩
  have hlen := congrArg List.length h
  simp only [List.length_nil, List.length_append, length_ignoreMarker] at hlen
  omega

/-- In a line that does not start with the marker, the occurrences are those behind the first character. -/
theorem silences_cons {c : Char} (h : ∀ behind, c :: line ≠ ignoreMarker ++ behind) :
    Silences (c :: line) rule ↔ Silences line rule := by
  constructor
  · rintro ⟨before, behind, heq, hbehind⟩
    cases before with
    | nil => exact absurd heq (h behind)
    | cons d before => exact ⟨before, behind, (List.cons.inj heq).2, hbehind⟩
  · rintro ⟨before, behind, rfl, hbehind⟩
    exact ⟨c :: before, behind, rfl, hbehind⟩

/-- In a line that starts with the marker, that occurrence and those behind it suffice. -/
theorem silences_ignoreMarker :
    Silences (ignoreMarker ++ behind) rule ↔ Concerns behind rule ∨ Silences behind rule := by
  constructor
  · rintro ⟨before, behind', h, hbehind⟩
    exact concerns_or_silences h hbehind
  · rintro (hbehind | ⟨before, behind', rfl, hbehind⟩)
    · exact ⟨[], behind, rfl, hbehind⟩
    · exact ⟨ignoreMarker ++ before, behind', by rw [List.append_assoc], hbehind⟩

/-- **The scan of a line.** A line silences a rule if and only if some occurrence of the marker is about the rule. -/
theorem lineSilences_iff : lineSilences rule 0 line = true ↔ Silences line rule := by
  induction hn : line.length using Nat.strong_induction_on generalizing line with
  | _ n ih =>
    subst hn
    cases line with
    | nil => exact iff_of_false (by simp [lineSilences]) not_silences_nil
    | cons c t =>
      rw [lineSilences, if_pos rfl]
      cases hafter : Text.after? ignoreMarker (c :: t) with
      | none =>
        have hhead : ∀ behind, c :: t ≠ ignoreMarker ++ behind := fun behind h => by
          rw [Text.after?_eq_some_iff.mpr h] at hafter
          cases hafter
        dsimp only
        rw [silences_cons hhead, ih t.length (by simp) rfl]
      | some behind =>
        have hline := Text.after?_eq_some_iff.mp hafter
        have hlen : (c :: t).length = 19 + behind.length := by
          rw [hline, List.length_append, length_ignoreMarker]
        have hdrop : t.drop (ignoreMarker.length - 1) = behind := by
          have h : (c :: t).drop ignoreMarker.length = behind := by rw [hline, List.drop_left]
          rwa [length_ignoreMarker] at h ⊢
        dsimp only
        rw [Bool.or_eq_true, markerSilences_iff, lineSilences_skip, hdrop, ih _ (by omega) rfl, hline,
          silences_ignoreMarker]

/-! ## The findings of a file -/

/-- Whether a comment silences the finding: its line is a line of the file, and that line, or the line right above if
it is a comment line, holds an occurrence of the marker that is about its rule. -/
def Covered (content : Text) (f : Finding) : Prop :=
  1 ≤ f.location.line ∧ f.location.line ≤ (Text.lines content).length ∧
    ∃ n line, (Text.lines content)[n]? = some line ∧ Silences line f.ruleId.toList ∧
      (f.location.line = n + 1 ∨ f.location.line = n + 2 ∧ isCommentLine line = true)

theorem isSuppressed_iff (content : Text) (f : Finding) :
    isSuppressed (Text.lines content) f = true ↔ Covered content f := by
  unfold isSuppressed Covered
  cases hn : f.location.line with
  | zero => simp
  | succ n =>
    cases hline : (Text.lines content)[n]? with
    | none =>
      have hlen := List.getElem?_eq_none_iff.mp hline
      simp only [hline, Bool.false_eq_true, false_iff]
      rintro ⟨-, hle, -⟩
      omega
    | some line =>
      have hlt : n < (Text.lines content).length := (List.getElem?_eq_some_iff.mp hline).1
      simp only [hline, Bool.or_eq_true, lineSilences_iff]
      constructor
      · rintro (h | h)
        · exact ⟨by omega, by omega, n, line, hline, h, Or.inl rfl⟩
        · cases n with
          | zero => cases h
          | succ m =>
            obtain ⟨above, habove, h⟩ := (Option.any_eq_true _ _).mp h
            rw [Bool.and_eq_true, lineSilences_iff] at h
            exact ⟨by omega, by omega, m, above, habove, h.2, Or.inr ⟨rfl, h.1⟩⟩
      · rintro ⟨-, -, m, line', hline', h, hm | ⟨hm, hcomment⟩⟩
        · obtain rfl : n = m := Nat.succ.inj hm
          obtain rfl : line = line' := Option.some.inj (hline.symm.trans hline')
          exact Or.inl h
        · obtain rfl : n = m + 1 := Nat.succ.inj hm
          exact Or.inr (by simp [hline', hcomment, lineSilences_iff.mpr h])

instance (content : Text) (f : Finding) : Decidable (Covered content f) :=
  decidable_of_iff _ (isSuppressed_iff content f)

/-- Without the marker nothing is covered. -/
theorem occurs_of_covered (content : Text) (f : Finding) (h : Covered content f) :
    Text.occurs ignoreMarker content = true := by
  obtain ⟨-, -, n, line, hline, ⟨before, behind, rfl, -⟩, -⟩ := h
  rw [Text.occurs_iff]
  exact List.IsInfix.trans ⟨before, behind, by simp⟩ (Text.infix_of_mem_lines (List.mem_of_getElem? hline))

/-- **What is left of the findings of a file.** Exactly those that are not covered, in order; whether the marker
occurs at all need not be asked first, and a finding without a line of the file stays. -/
theorem keepUnsuppressed_uncovered (content : Text) (fs : List Finding) :
    keepUnsuppressed content fs = fs.filter (fun f => ¬ Covered content f) ∧
      keepUnsuppressed content fs = fs.filter (fun f => !isSuppressed (Text.lines content) f) ∧
      ∀ f ∈ fs, (f.location.line = 0 ∨ (Text.lines content).length < f.location.line) →
        f ∈ keepUnsuppressed content fs := by
  have htest : ∀ f, (!isSuppressed (Text.lines content) f) = decide (¬ Covered content f) := fun f => by
    rw [decide_not, Bool.eq_iff_iff.mpr ((isSuppressed_iff content f).trans decide_eq_true_iff.symm)]
  have hkeep : keepUnsuppressed content fs = fs.filter (fun f => ¬ Covered content f) := by
    unfold keepUnsuppressed
    split
    · rename_i hfast
      rw [Bool.or_eq_true, List.isEmpty_iff] at hfast
      refine (List.filter_eq_self.mpr fun f hf => ?_).symm
      rcases hfast with rfl | hno
      · cases hf
      · refine decide_eq_true fun hc => ?_
        simp [occurs_of_covered content f hc] at hno
    · exact List.filter_congr fun f _ => htest f
  refine ⟨hkeep, ?_, fun f hf hline => ?_⟩
  · rw [hkeep]
    exact List.filter_congr fun f _ => (htest f).symm
  · rw [hkeep, List.mem_filter]
    refine ⟨hf, decide_eq_true fun hc => ?_⟩
    obtain ⟨hone, hle, -⟩ := hc
    omega

/-- A marker for files before a list, a marker that overlaps with the next one, and a finding behind the last line. -/
theorem keepUnsuppressed_uncovered_overlap :
    let content :=
      "// react-health-ignore-file react-health-ignore[ b , c ]\nx\ny react-health-ignoreact-health-ignore[c]"
    let on (rule : String) (line : Nat) : Finding := ⟨.info, rule, "m", none, ⟨"a.ts", line, 1⟩, none⟩
    let fs := [on "a" 2, on "b" 2, on "b" 3, on "a" 9]
    (on "a" 9 ∈ fs ∧ (Text.lines content.toList).length < (on "a" 9).location.line) ∧
      (¬ Covered content.toList (on "a" 2) ∧ Covered content.toList (on "b" 2) ∧ Covered content.toList (on "b" 3)) ∧
      keepUnsuppressed content.toList fs = [on "a" 2, on "a" 9] ∧
      keepUnsuppressed content.toList fs = fs.filter (fun f => ¬ Covered content.toList f) ∧
      on "a" 9 ∈ keepUnsuppressed content.toList fs := by
  intro content on fs
  have hline : (Text.lines content.toList).length < (on "a" 9).location.line := by decide +kernel
  have hmem : on "a" 9 ∈ fs := by simp [fs]
  obtain ⟨hfilter, -, hkept⟩ := keepUnsuppressed_uncovered content.toList fs
  exact ⟨⟨hmem, hline⟩, by decide +kernel, by decide +kernel, hfilter, hkept _ hmem (Or.inr hline)⟩

end Checkup
