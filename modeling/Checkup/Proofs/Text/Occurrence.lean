import Checkup.Text.Basic

/-!
# Occurrences and pieces

What the searches and cuts of a text find, said with the parts of a list.

* `after?_eq_some_iff`, `occurs_iff`: a text at the start of another one, and anywhere in it.
* `IsPiece`: a stretch between characters that separate; `mem_split` says that a text is split into these.
* `infix_of_mem_lines`: a line is a part of its text.
-/

namespace Checkup.Text

variable {needle t rest : Text} {c : Char}

/-! ## Searching -/

theorem after?_eq_some_iff : after? needle t = some rest ↔ t = needle ++ rest := by
  induction needle generalizing t with
  | nil => simp [after?]
  | cons a needle ih =>
    cases t with
    | nil => simp [after?]
    | cons c t =>
      rw [after?]
      by_cases hc : a = c
      · rw [if_pos hc, ih, hc, List.cons_append, List.cons.injEq, and_iff_right rfl]
      · rw [if_neg hc, List.cons_append, List.cons.injEq]
        exact ⟨fun h => absurd h (by simp), fun h => absurd h.1.symm hc⟩

/-- What `before?` gives stands in front of the end. -/
theorem before?_eq_some_iff : before? needle t = some rest ↔ t = rest ++ needle := by
  have hreverse (r : Text) : t.reverse = needle.reverse ++ r ↔ t = r.reverse ++ needle := by
    rw [List.reverse_eq_iff, List.reverse_append, List.reverse_reverse]
  rw [before?, Option.map_eq_some_iff]
  simp only [after?_eq_some_iff, hreverse]
  constructor
  · rintro ⟨r, h, rfl⟩
    exact h
  · intro h
    exact ⟨rest.reverse, by rwa [List.reverse_reverse], List.reverse_reverse rest⟩

theorem occurs_iff : occurs needle t = true ↔ needle <:+: t := by
  induction t with
  | nil => rw [occurs, List.isEmpty_iff, List.infix_nil]
  | cons c t ih => rw [occurs, Bool.or_eq_true, ih, List.isPrefixOf_iff_prefix, List.infix_cons_iff]

/-! ## Pieces -/

variable {sep : Char → Bool} {piece acc : Text}

/-- Whether the piece is a stretch of the text without separating characters that ends on both sides at such a
character or at an end of the text. -/
def IsPiece (sep : Char → Bool) (t piece : Text) : Prop :=
  ∃ before behind, t = before ++ (piece ++ behind) ∧ (∀ x ∈ piece, sep x = false) ∧
    (∀ x ∈ before.getLast?, sep x = true) ∧ ∀ x ∈ behind.head?, sep x = true

theorem eq_nil_of_getLast? (h : ∀ x ∈ t, sep x = false) (hlast : ∀ x ∈ t.getLast?, sep x = true) : t = [] := by
  refine List.getLast?_eq_none_iff.mp (Option.eq_none_iff_forall_not_mem.mpr fun x hx => ?_)
  have hx' := h x (List.mem_of_getLast? hx)
  rw [hlast x hx] at hx'
  cases hx'

theorem eq_nil_of_head? (h : ∀ x ∈ t, sep x = false) (hhead : ∀ x ∈ t.head?, sep x = true) : t = [] := by
  refine List.head?_eq_none_iff.mp (Option.eq_none_iff_forall_not_mem.mpr fun x hx => ?_)
  have hx' := h x (List.mem_of_head? hx)
  rw [hhead x hx] at hx'
  cases hx'

/-- A text without separating characters is its only piece. -/
theorem isPiece_of_forall (h : ∀ x ∈ t, sep x = false) : IsPiece sep t piece ↔ piece = t := by
  constructor
  · rintro ⟨before, behind, rfl, -, hbefore, hbehind⟩
    have hnil : before = [] := eq_nil_of_getLast? (fun x hx => h x (by simp [hx])) hbefore
    have hnil' : behind = [] := eq_nil_of_head? (fun x hx => h x (by simp [hx])) hbehind
    rw [hnil, hnil', List.nil_append, List.append_nil]
  · rintro rfl
    exact ⟨[], [], by simp, h, by simp, by simp⟩

/-- The pieces of a text are what stands before the first separating character and the pieces behind it. -/
theorem isPiece_append_cons (h : ∀ x ∈ acc, sep x = false) (hc : sep c = true) :
    IsPiece sep (acc ++ c :: t) piece ↔ piece = acc ∨ IsPiece sep t piece := by
  constructor
  · rintro ⟨before, behind, heq, hpiece, hbefore, hbehind⟩
    have hinside : ∀ {y}, acc = before ++ y → piece ++ behind = y ++ c :: t → piece = acc := by
      rintro y rfl hy
      obtain rfl : before = [] := eq_nil_of_getLast? (fun x hx => h x (by simp [hx])) hbefore
      rcases List.append_eq_append_iff.mp hy with ⟨z, rfl, rfl⟩ | ⟨z, rfl, hz⟩
      · obtain rfl : z = [] := eq_nil_of_head? (fun x hx => h x (by simp [hx])) fun x hx => hbehind x (by
          rw [List.head?_append, hx]; rfl)
        simp
      · cases z with
        | nil => simp
        | cons d z =>
          obtain ⟨rfl, -⟩ := List.cons.inj hz
          have hc' := hpiece c (by simp)
          rw [hc] at hc'
          cases hc'
    rcases List.append_eq_append_iff.mp heq with ⟨x, rfl, hx⟩ | ⟨y, hacc, hy⟩
    · cases x with
      | nil => exact Or.inl (hinside (y := []) (by simp) hx.symm)
      | cons d x =>
        obtain ⟨rfl, rfl⟩ := List.cons.inj hx
        refine Or.inr ⟨x, behind, rfl, hpiece, fun z hz => hbefore z ?_, hbehind⟩
        rw [List.getLast?_append, List.getLast?_cons, hz]
        rfl
    · exact Or.inl (hinside hacc hy)
  · rintro (rfl | ⟨before, behind, rfl, hpiece, hbefore, hbehind⟩)
    · exact ⟨[], c :: t, by simp, h, by simp, by simp [hc]⟩
    · refine ⟨acc ++ c :: before, behind, by simp, hpiece, fun x hx => ?_, hbehind⟩
      cases hlast : before.getLast? with
      | none => simp_all [List.getLast?_cons]
      | some d => simp_all [List.getLast?_cons]

theorem mem_splitFrom (h : ∀ x ∈ acc, sep x = false) :
    piece ∈ splitFrom sep acc t ↔ IsPiece sep (acc.reverse ++ t) piece := by
  induction t generalizing acc with
  | nil =>
    rw [splitFrom, List.mem_singleton, List.append_nil, isPiece_of_forall (by simpa using h)]
  | cons c t ih =>
    rw [splitFrom]
    by_cases hc : sep c = true
    · rw [if_pos hc, List.mem_cons, isPiece_append_cons (by simpa using h) hc, ih (by simp), List.reverse_nil,
        List.nil_append]
    · rw [if_neg hc, ih (by simpa [hc] using h), List.reverse_cons, List.append_assoc, List.singleton_append]

/-- **A text is split into its pieces.** -/
theorem mem_split : piece ∈ split sep t ↔ IsPiece sep t piece := mem_splitFrom (by simp)

/-! ## Lines -/

theorem closeLine_lead (line : Text) : closeLine line <+: line.reverse := by
  unfold closeLine
  split
  · simp
  · exact List.prefix_refl _

theorem infix_of_mem_linesFrom {acc line : Text} (h : line ∈ linesFrom acc t) : line <:+: acc.reverse ++ t := by
  induction t generalizing acc with
  | nil =>
    rw [linesFrom] at h
    split at h
    · cases h
    · rw [List.mem_singleton.mp h]
      exact (List.prefix_append _ _).isInfix
  | cons c t ih =>
    rw [linesFrom] at h
    split at h
    · rcases List.mem_cons.mp h with rfl | h
      · exact (closeLine_lead acc).isInfix.trans (List.prefix_append _ _).isInfix
      · have := ih h
        exact this.trans (List.suffix_append_of_suffix (List.suffix_cons c t)).isInfix
    · simpa using ih h

theorem infix_of_mem_lines {line : Text} (h : line ∈ lines t) : line <:+: t := infix_of_mem_linesFrom h

end Checkup.Text
