import Mathlib.Data.List.Basic
import Checkup.Proofs.Await.Run
import Checkup.Proofs.Pattern.Shape
import Checkup.Proofs.Text.Piece

/-!
# The names that a pattern binds

`boundNames` takes a pattern apart at its commas, and each part at its colons and equals signs. `PatternEntry` is a
part as it is written: a name, maybe behind a key or behind dots, and maybe with a default.

* `pieceName_front`: what stands in front of the name makes no difference to what is read off a part.
* `nameOf?_body`: the name is read off a part, unless its default has a colon. Then it is read off the default.
* `boundNames_pattern`: each entry gives what is read off it (`PatternEntry.bound?`), in order. That is the name it
  binds if its default has no colon.
-/

namespace Checkup

open Text

variable {t u w d : Text} {c opener closer : Char} {s : AwaitStatement} {e : PatternEntry} {es : List PatternEntry}

/-! ## Patterns as they are written -/

/-- Whether the text has no comma and none of the brackets that patterns are made of. -/
def IsFlat (t : Text) : Prop := ∀ x ∈ t, x ∉ [',', '\x7b', '\x7d', '[', ']']

instance (t : Text) : Decidable (IsFlat t) := inferInstanceAs (Decidable (∀ x ∈ t, x ∉ _))

/-- What stands in front of the name that an entry binds: nothing, a key or dots, with blanks. -/
inductive EntryFront where
  | blanks (w : Text)
  | key (key w : Text)
  | dots (w w' : Text)

namespace EntryFront

/-- The text of the front. -/
def text : EntryFront → Text
  | blanks w => w
  | key k w => k ++ ':' :: w
  | dots w w' => w ++ ("...".toList ++ w')

/-- Whether the key may stand in a flat pattern, and the rest are blanks. -/
def Fits : EntryFront → Prop
  | blanks w => ∀ x ∈ w, x.isBlank = true
  | key k w => IsFlat k ∧ ∀ x ∈ w, x.isBlank = true
  | dots w w' => (∀ x ∈ w, x.isBlank = true) ∧ ∀ x ∈ w', x.isBlank = true

end EntryFront

/-- An entry of a pattern, as it is written. -/
structure PatternEntry where
  front : EntryFront
  /-- the name that is bound -/
  name : Text
  /-- the blanks behind the name -/
  gap : Text
  /-- what stands behind the equals sign, if there is one -/
  default? : Option Text

namespace PatternEntry

/-- The text of the entry behind its front. -/
def body (e : PatternEntry) : Text := e.name ++ (e.gap ++ e.default?.elim [] ('=' :: ·))

/-- The text of the entry. -/
def text (e : PatternEntry) : Text := e.front.text ++ e.body

/-- Whether the entry may stand in a flat pattern. -/
structure Fits (e : PatternEntry) : Prop where
  front : e.front.Fits
  name : isIdentifier e.name = true
  gap : ∀ x ∈ e.gap, x.isBlank = true
  default? : ∀ d ∈ e.default?, IsFlat d

end PatternEntry

instance : (f : EntryFront) → Decidable f.Fits
  | .blanks w => inferInstanceAs (Decidable (∀ x ∈ w, _))
  | .key k w => inferInstanceAs (Decidable (IsFlat k ∧ ∀ x ∈ w, _))
  | .dots w w' => inferInstanceAs (Decidable ((∀ x ∈ w, _) ∧ ∀ x ∈ w', _))

instance (e : PatternEntry) : Decidable e.Fits :=
  decidable_of_iff
    (e.front.Fits ∧ isIdentifier e.name = true ∧ (∀ x ∈ e.gap, x.isBlank = true) ∧ ∀ d ∈ e.default?, IsFlat d)
    ⟨fun ⟨hfront, hname, hgap, hdefault⟩ => ⟨hfront, hname, hgap, hdefault⟩,
      fun h => ⟨h.front, h.name, h.gap, h.default?⟩⟩

/-! ## The name read off a part -/

/-- What stands behind the last colon of a part, up to an equals sign. -/
def pieceName (t : Text) : Text := trim (firstPiece (· == '=') (lastPiece (· == ':') t))

/-- What is read off a part, if it is an identifier. -/
def nameOf? (t : Text) : Option Text := if isIdentifier (pieceName t) then some (pieceName t) else none

/-- What is read off an entry: its name, or what is read off its default if this has a colon. -/
def PatternEntry.bound? (e : PatternEntry) : Option Text :=
  match e.default? with
  | none => some e.name
  | some d => if ':' ∈ d then nameOf? d else some e.name

theorem not_isBlank_of_isIdent (h : c.isIdent = true) : c.isBlank = false := not_isBlank_of (by decide) h

/-- What stands in front of a colon makes no difference. -/
theorem pieceName_colon (t u : Text) : pieceName (t ++ ':' :: u) = pieceName u := by
  rw [pieceName, lastPiece_append_cons (· == ':') rfl, pieceName]

/-- Nor do blanks in front of the part. -/
theorem pieceName_lead (hw : ∀ x ∈ w, x.isBlank = true) (t : Text) : pieceName (w ++ t) = pieceName t := by
  by_cases ht : ':' ∈ t
  · obtain ⟨a, b, rfl⟩ := List.append_of_mem ht
    rw [← List.append_assoc, pieceName_colon, pieceName_colon]
  · have hcolon : ∀ x ∈ t, (x == ':') = false := fun x hx => by simp [ne_of_mem_of_not_mem hx ht]
    have hboth : ∀ x ∈ w ++ t, (x == ':') = false := fun x hx =>
      (List.mem_append.mp hx).elim (fun hx => beq_of_class (by decide) (hw x hx)) (hcolon x)
    have hfirst : firstPiece (· == '=') (w ++ t) = w ++ firstPiece (· == '=') t :=
      List.takeWhile_append_of_pos fun x hx => by simp [beq_of_class (c := '=') (by decide) (hw x hx)]
    rw [pieceName, lastPiece_of_forall hboth, hfirst, trim_lead hw, pieceName, lastPiece_of_forall hcolon]

/-- Nor do blanks behind it. -/
theorem pieceName_append (hw : ∀ x ∈ w, x.isBlank = true) (t : Text) : pieceName (t ++ w) = pieceName t := by
  rw [pieceName, lastPiece_append_of_forall fun x hx => beq_of_class (by decide) (hw x hx), pieceName]
  generalize lastPiece (· == ':') t = u
  by_cases hu : '=' ∈ u
  · obtain ⟨a, b, rfl, ha⟩ := List.eq_append_cons_of_mem hu
    have ha' : ∀ x ∈ a, (x == '=') = false := fun x hx => by simp [ne_of_mem_of_not_mem hx ha]
    rw [List.append_assoc, List.cons_append, firstPiece_append_cons ha' (beq_self_eq_true '='),
      firstPiece_append_cons ha' (beq_self_eq_true '=')]
  · have hu' : ∀ x ∈ u, (x == '=') = false := fun x hx => by simp [ne_of_mem_of_not_mem hx hu]
    have hboth : ∀ x ∈ u ++ w, (x == '=') = false := fun x hx =>
      (List.mem_append.mp hx).elim (hu' x) fun hx => beq_of_class (by decide) (hw x hx)
    rw [firstPiece_of_forall hboth, firstPiece_of_forall hu', trim_append hw]

/-- Nor do blanks around it. -/
theorem pieceName_trim (t : Text) : pieceName (trim t) = pieceName t := by
  obtain ⟨lead, w, hlead, hw, ht⟩ := exists_trim t
  conv_rhs => rw [ht, pieceName_lead hlead, pieceName_append hw]

/-! ## Fronts -/

theorem dropDots_eq_self (ht : t.head? ≠ some '.') : boundNames.dropDots t = t := by
  unfold boundNames.dropDots
  split
  · simp at ht
  · rfl

theorem exists_dropDots (t : Text) : ∃ dots, t = dots ++ boundNames.dropDots t ∧ ∀ x ∈ dots, x = '.' := by
  induction t using boundNames.dropDots.induct with
  | case1 t ih =>
    obtain ⟨dots, ht, hdots⟩ := ih
    exact ⟨"...".toList ++ dots, congrArg ("...".toList ++ ·) ht, by simpa using hdots⟩
  | case2 t ht => exact ⟨[], (boundNames.dropDots.eq_2 t ht).symm, List.forall_mem_nil _⟩

/-- Dots in front of a colon make no difference. -/
theorem pieceName_dropDots (ht : ':' ∈ t) : pieceName (boundNames.dropDots t) = pieceName t := by
  obtain ⟨dots, h, hdots⟩ := exists_dropDots t
  have hmem : ':' ∈ boundNames.dropDots t := by
    rw [h, List.mem_append] at ht
    exact ht.resolve_left fun hd => absurd (hdots ':' hd) (by decide)
  obtain ⟨a, b, hab⟩ := List.append_of_mem hmem
  rw [hab, pieceName_colon]
  rw [h, hab, ← List.append_assoc, pieceName_colon]

/-- **Whatever stands in front of the name makes no difference.** -/
theorem pieceName_front {f : EntryFront} (hf : f.Fits) (hc : c.isIdent = true) (t : Text) :
    pieceName (boundNames.dropDots (trim (f.text ++ c :: t))) = pieceName (c :: t) := by
  have hblank := not_isBlank_of_isIdent hc
  have hdot : c ≠ '.' := fun h => by simp [h, Char.isIdent] at hc
  have htrim : trim (c :: t) = c :: trimEnd t := by
    rw [trim, trimStart_cons hblank]
    exact trimEnd_append_cons hblank [] t
  cases f with
  | blanks w =>
    have hself : boundNames.dropDots (trim (c :: t)) = trim (c :: t) :=
      dropDots_eq_self (by rw [htrim]; simpa using hdot)
    rw [EntryFront.text, trim_lead hf, hself, pieceName_trim]
  | key k w =>
    rw [EntryFront.text, pieceName_dropDots (mem_trim (by decide) (by simp)), pieceName_trim, List.append_assoc,
      List.cons_append, pieceName_colon, pieceName_lead hf.2]
  | dots w w' =>
    have hdots : trim ("...".toList ++ (w' ++ c :: t)) = "...".toList ++ (w' ++ c :: trimEnd t) := by
      rw [trim, String.toList_ofList, List.cons_append, trimStart_cons (by decide), ← List.append_assoc,
        ← List.cons_append, trimEnd_append_cons hblank]
      simp
    have hself : boundNames.dropDots (w' ++ c :: trimEnd t) = w' ++ c :: trimEnd t := by
      refine dropDots_eq_self ?_
      cases w' with
      | nil => simpa using hdot
      | cons x w' => simpa using beq_of_class (c := '.') (by decide) (hf.2 x (List.mem_cons_self ..))
    calc pieceName (boundNames.dropDots (trim (w ++ ("...".toList ++ w') ++ c :: t)))
        = pieceName (boundNames.dropDots (w' ++ c :: trimEnd t)) := by
          rw [List.append_assoc, trim_lead hf.1, List.append_assoc, hdots]
          rfl
      _ = pieceName (c :: trimEnd t) := by rw [hself, pieceName_lead hf.2]
      _ = pieceName (c :: t) := by rw [← htrim, pieceName_trim]

/-! ## Names and defaults -/

/-- **The name is read off, or the default if this has a colon.** -/
theorem nameOf?_body (he : e.Fits) : nameOf? e.body = e.bound? := by
  have hident := isIdent_of_mem he.name
  have htrim : trim e.name = e.name := trim_of_forall fun x hx => not_isBlank_of_isIdent (hident x hx)
  have hname {c : Char} (hc : c.isIdent = false) (hblank : c.isBlank = false) (x : Char) (hx : x ∈ e.name ++ e.gap) :
      (x == c) = false :=
    (List.mem_append.mp hx).elim (fun hx => beq_of_class hc (hident x hx)) fun hx => beq_of_class hblank (he.gap x hx)
  have hcolon : ∀ x ∈ e.name ++ e.gap, (x == ':') = false := hname (by decide) (by decide)
  have hequals : ∀ x ∈ e.name ++ e.gap, (x == '=') = false := hname (by decide) (by decide)
  cases hd : e.default? with
  | none =>
    have hbody : e.body = e.name ++ e.gap := by simp [PatternEntry.body, hd]
    have hread : pieceName e.body = e.name := by
      rw [hbody, pieceName, lastPiece_of_forall hcolon, firstPiece_of_forall hequals, trim_append he.gap, htrim]
    simp [nameOf?, hread, PatternEntry.bound?, hd, he.name]
  | some d =>
    have hbody : e.body = e.name ++ e.gap ++ '=' :: d := by simp [PatternEntry.body, hd]
    by_cases hmem : ':' ∈ d
    · obtain ⟨a, b, rfl⟩ := List.append_of_mem hmem
      have hread : pieceName e.body = pieceName (a ++ ':' :: b) := by
        rw [hbody, ← List.cons_append, ← List.append_assoc, pieceName_colon, pieceName_colon]
      simp [nameOf?, hread, PatternEntry.bound?, hd]
    · have hall : ∀ x ∈ e.name ++ e.gap ++ '=' :: d, (x == ':') = false := by
        intro x hx
        rcases List.mem_append.mp hx with hx | hx
        · exact hcolon x hx
        · rcases List.mem_cons.mp hx with rfl | hx
          · decide
          · simp [ne_of_mem_of_not_mem hx hmem]
      have hread : pieceName e.body = e.name := by
        rw [hbody, pieceName, lastPiece_of_forall hall, firstPiece_append_cons hequals (beq_self_eq_true '='),
          trim_append he.gap, htrim]
      simp [nameOf?, hread, PatternEntry.bound?, hd, hmem, he.name]

/-- A part of a pattern gives what is read off the entry. -/
theorem nameOf?_text (he : e.Fits) : nameOf? (boundNames.dropDots (trim e.text)) = e.bound? := by
  obtain ⟨c, u, hname⟩ := List.exists_cons_of_ne_nil (ne_nil_of_isIdentifier he.name)
  have hc : c.isIdent = true := isIdent_of_mem he.name c (by simp [hname])
  have hbody : e.body = c :: (u ++ (e.gap ++ e.default?.elim [] ('=' :: ·))) := by simp [PatternEntry.body, hname]
  rw [← nameOf?_body he, nameOf?, nameOf?, PatternEntry.text, hbody, pieceName_front he.front hc]

/-! ## Patterns -/

/-- The text of a pattern. -/
def patternText (opener closer : Char) (es : List PatternEntry) : Text :=
  opener :: (join [','] (es.map PatternEntry.text) ++ [closer])

theorem isFlat_append : IsFlat (t ++ u) ↔ IsFlat t ∧ IsFlat u := List.forall_mem_append

theorem isFlat_of_isBlank (hw : ∀ x ∈ w, x.isBlank = true) : IsFlat w := by
  intro x hx hmem
  have hall : ([',', '\x7b', '\x7d', '[', ']'].all fun c => !c.isBlank) = true := by decide
  simpa [hw x hx] using List.all_eq_true.mp hall x hmem

theorem isFlat_of_isIdent (ht : ∀ x ∈ t, x.isIdent = true) : IsFlat t := by
  intro x hx hmem
  have hall : ([',', '\x7b', '\x7d', '[', ']'].all fun c => !c.isIdent) = true := by decide
  simpa [ht x hx] using List.all_eq_true.mp hall x hmem

theorem PatternEntry.Fits.isFlat (he : e.Fits) : IsFlat e.text := by
  have hfront : IsFlat e.front.text := by
    have hf := he.front
    revert hf
    cases e.front with
    | blanks w => exact isFlat_of_isBlank
    | key k w => exact fun hf => isFlat_append.mpr ⟨hf.1, List.forall_mem_cons.mpr ⟨by decide, isFlat_of_isBlank hf.2⟩⟩
    | dots w w' =>
      exact fun hf => isFlat_append.mpr
        ⟨isFlat_of_isBlank hf.1, isFlat_append.mpr ⟨by decide, isFlat_of_isBlank hf.2⟩⟩
  have hdefault : IsFlat (e.default?.elim [] ('=' :: ·)) := by
    cases hd : e.default? with
    | none => exact List.forall_mem_nil _
    | some d => exact List.forall_mem_cons.mpr ⟨by decide, he.default? d hd⟩
  exact isFlat_append.mpr ⟨hfront, isFlat_append.mpr
    ⟨isFlat_of_isIdent (isIdent_of_mem he.name), isFlat_append.mpr ⟨isFlat_of_isBlank he.gap, hdefault⟩⟩⟩

/-- Only the brackets around the parts are dropped. -/
theorem boundNames_bracketed (h : (opener, closer) ∈ [('\x7b', '\x7d'), ('[', ']')])
    (ht : ∀ x ∈ t, x ∉ ['\x7b', '\x7d', '[', ']']) :
    boundNames (opener :: (t ++ [closer])) =
      (split (· == ',') t).filterMap fun piece => nameOf? (boundNames.dropDots (trim piece)) := by
  have hbrackets : ∀ b ∈ [('\x7b', '\x7d'), ('[', ']')], b.1.isBlank = false ∧ b.1.isIdentStart = false ∧
      (b.1 == '\x7b' || b.1 == '[') = true ∧ b.2.isBlank = false ∧ (b.2 == '\x7b' || b.2 == '[') = false ∧
      (b.2 == '\x7d' || b.2 == ']') = true := by decide
  obtain ⟨hblank, hstart, hopener, hblank', hcloser', hcloser⟩ := hbrackets (opener, closer) h
  dsimp only at hblank hstart hopener hblank' hcloser' hcloser
  have htrim : trim (opener :: (t ++ [closer])) = opener :: (t ++ [closer]) := by
    rw [trim, trimStart_cons hblank, ← List.cons_append, trimEnd_concat, if_neg (by simp [hblank'])]
  have hname : isIdentifier (opener :: (t ++ [closer])) = false := by simp [isIdentifier, hstart]
  have hlead : (opener :: (t ++ [closer])).dropWhile (fun c => c == '\x7b' || c == '[') = t ++ [closer] := by
    rw [List.dropWhile_cons, if_pos hopener, List.dropWhile_eq_self_iff]
    intro hlen
    have hmem := List.mem_append.mp (List.getElem_mem hlen)
    rcases hmem with hmem | hmem
    · have := ht _ hmem
      simp_all
    · rw [List.mem_singleton.mp hmem]
      simp [hcloser']
  have hend : trimEndBy (fun c => c == '\x7d' || c == ']') (t ++ [closer]) = t := by
    rw [trimEndBy, List.reverse_append, List.reverse_singleton, List.singleton_append, List.dropWhile_cons,
      if_pos hcloser, List.dropWhile_eq_self_iff.mpr, List.reverse_reverse]
    intro hlen
    have := ht _ (List.mem_reverse.mp (List.getElem_mem hlen))
    simp_all
  rw [boundNames, htrim, hname, if_neg Bool.false_ne_true, hlead, hend]
  rfl

theorem boundNames_patternText (h : (opener, closer) ∈ [('\x7b', '\x7d'), ('[', ']')]) (hes : ∀ e ∈ es, e.Fits) :
    boundNames (patternText opener closer es) = es.filterMap PatternEntry.bound? := by
  have hflat : ∀ t ∈ es.map PatternEntry.text, IsFlat t := by simpa using fun e he => (hes e he).isFlat
  have hjoin : ∀ x ∈ join [','] (es.map PatternEntry.text), x ∉ ['\x7b', '\x7d', '[', ']'] := by
    intro x hx
    rcases mem_join hx with rfl | ⟨t, ht, hx⟩
    · decide
    · exact fun hmem => hflat t ht x hx (List.mem_cons_of_mem ',' hmem)
  rw [patternText, boundNames_bracketed h hjoin]
  cases es with
  | nil => rfl
  | cons e es =>
    have hpieces : ∀ t ∈ (e :: es).map PatternEntry.text, ∀ x ∈ t, (x == ',') = false := fun t ht x hx =>
      beq_eq_false_iff_ne.mpr fun h => hflat t ht x hx (by simp [h])
    rw [split_join (· == ',') rfl (by simp) hpieces, List.filterMap_map]
    refine List.filterMap_congr fun e' he' => ?_
    rw [Function.comp_apply, nameOf?_text (hes e' he')]

/-- **Each entry of a pattern gives what is read off it, and that is its name if no default has a colon.** -/
theorem boundNames_pattern (h : (opener, closer) ∈ [('\x7b', '\x7d'), ('[', ']')]) (hes : ∀ e ∈ es, e.Fits) :
    boundNames (patternText opener closer es) = es.filterMap PatternEntry.bound? ∧
      ((∀ e ∈ es, ∀ d ∈ e.default?, ':' ∉ d) →
        boundNames (patternText opener closer es) = es.map PatternEntry.name ∧
          ∀ s : AwaitStatement, s.dependsOn (boundNames (patternText opener closer es)) = true ↔
            ∃ e ∈ es, Text.Names s.call e.name) := by
  have hread := boundNames_patternText h hes
  refine ⟨hread, fun hcolon => ?_⟩
  have hnames : boundNames (patternText opener closer es) = es.map PatternEntry.name := by
    rw [hread, List.filterMap_eq_map_iff_forall_eq_some]
    intro e he
    cases hd : e.default? with
    | none => simp [PatternEntry.bound?, hd]
    | some d => simp [PatternEntry.bound?, hd, hcolon e he d hd]
  refine ⟨hnames, fun s => ?_⟩
  rw [hnames, AwaitStatement.dependsOn, List.any_map, List.any_eq_true]
  exact exists_congr fun e => and_congr_right fun he => mentions_iff (hes e he).name

/-- Names behind a key and behind dots, and one with a default. -/
theorem boundNames_pattern_renamed :
    let es : List PatternEntry :=
      [⟨.key " id".toList " ".toList, "user".toList, " ".toList, some " load()".toList⟩,
        ⟨.dots " ".toList [], "rest".toList, " ".toList, none⟩]
    ('\x7b', '\x7d') ∈ [('\x7b', '\x7d'), ('[', ']')] ∧ (∀ e ∈ es, e.Fits) ∧ (∀ e ∈ es, ∀ d ∈ e.default?, ':' ∉ d) ∧
      boundNames "\x7b id: user = load(), ...rest \x7d".toList = ["user".toList, "rest".toList] := by
  intro es
  have hes : ∀ e ∈ es, e.Fits := by decide
  have hcolon : ∀ e ∈ es, ∀ d ∈ e.default?, ':' ∉ d := by decide
  have htext : "\x7b id: user = load(), ...rest \x7d".toList = patternText '\x7b' '\x7d' es := by decide
  obtain ⟨hnames, _⟩ := (boundNames_pattern (by decide : ('\x7b', '\x7d') ∈ _) hes).2 hcolon
  exact ⟨by decide, hes, hcolon, htext ▸ hnames⟩

/-- A name whose default is a choice is lost, and a statement that needs it counts as independent. -/
theorem boundNames_misses_choice :
    let es : List PatternEntry :=
      [⟨.blanks " ".toList, "user".toList, [], none⟩,
        ⟨.blanks " ".toList, "theme".toList, " ".toList, some " dark ? 1 : 2 ".toList⟩]
    (∀ e ∈ es, e.Fits) ∧ boundNames (patternText '\x7b' '\x7d' es) = ["user".toList] ∧
      asyncParallel.detect "a.ts"
        "const \x7b user, theme = dark ? 1 : 2 \x7d = await load();\nconst page = await render(theme);\n".toList ≠
          .ok [] :=
  ⟨by decide, by decide, by decide +kernel⟩

end Checkup
