import Mathlib.Data.List.Basic
import Checkup.Proofs.Pattern.Name
import Checkup.Proofs.Pattern.Search
import Checkup.Proofs.Text.Bracket
import Checkup.Proofs.Text.Piece
import Checkup.Rule.Composition

/-!
# The members of a type that lists properties

The body of a type is cut at the semicolons, commas and line feeds outside brackets, and each piece is read by itself.

* `Bracketed`: brackets match each other, of whatever kinds, and nothing but what stands in them may hold separators.
* `membersFrom_bracketed`: the cutting passes over such texts.
* `memberField?_member`: a member is read as its name and type, or not at all if the type has a line break.
* `memberFields_parts`: the parts of a body, members and comments, are read one by one.
-/

namespace Checkup

open Pattern Text

variable {acc p t u v w pre post lead name type rest : Text} {inside : Bool} {depth : Int} {c prev : Char}
  {g : Marks} {m : Match}

/-! ## Brackets -/

/-- The brackets that open something in a type. -/
def openingBrackets : List Char := ['\x7b', '(', '[', '<']

/-- The brackets that close something in a type. -/
def closingBrackets : List Char := ['\x7d', ')', ']', '>']

/-- The characters that end a member. -/
def memberSeparators : List Char := [';', ',', '\n']

/-- Whether the brackets of a text match each other, of whatever kinds, where an arrow is no bracket. What ends members
stands in brackets, unless the text does itself. -/
inductive Bracketed : (inside : Bool) → Text → Prop
  | nil {b : Bool} : Bracketed b []
  | other {b : Bool} {c : Char} {t : Text} : c ∉ openingBrackets ++ closingBrackets →
    (c ∈ memberSeparators → b = true) →
    Bracketed b t → Bracketed b (c :: t)
  | arrow {b : Bool} {t : Text} : Bracketed b t → Bracketed b ('=' :: '>' :: t)
  | nested {b : Bool} {o c : Char} {s t : Text} : o ∈ openingBrackets → c ∈ closingBrackets →
    (c = '>' → s.getLast? ≠ some '=') → Bracketed true s → Bracketed b t → Bracketed b (o :: (s ++ c :: t))

theorem bracketed_of_forall
    (h : ∀ x ∈ t, x ∉ openingBrackets ++ closingBrackets ∧ (x ∈ memberSeparators → inside = true)) :
      Bracketed inside t := by
  induction t with
  | nil => exact .nil
  | cons c t ih =>
    obtain ⟨hc, ht⟩ := List.forall_mem_cons.mp h
    exact .other hc.1 hc.2 (ih ht)

theorem Bracketed.append (hp : Bracketed inside p) (ht : Bracketed inside t) : Bracketed inside (p ++ t) := by
  induction hp with
  | nil => exact ht
  | other hc hsep _ ih => exact .other hc hsep (ih ht)
  | arrow _ ih => exact .arrow (ih ht)
  | nested ho hc hlast hs _ _ ih =>
    rw [List.cons_append, List.append_assoc]
    exact .nested ho hc hlast hs (ih ht)

/-! ## The cutting of a body -/

theorem membersFrom_open (hc : c ∈ openingBrackets) :
    membersFrom acc depth prev (c :: t) = membersFrom (c :: acc) (depth + 1) c t := by
  simp only [openingBrackets, List.mem_cons, List.not_mem_nil, or_false] at hc
  rcases hc with rfl | rfl | rfl | rfl <;> rfl

theorem membersFrom_close (hc : c ∈ closingBrackets) (hprev : c = '>' → prev ≠ '=') :
    membersFrom acc depth prev (c :: t) = membersFrom (c :: acc) (depth - 1) c t := by
  simp only [closingBrackets, List.mem_cons, List.not_mem_nil, or_false] at hc
  rcases hc with rfl | rfl | rfl | rfl
  · rfl
  · rfl
  · rfl
  · rw [membersFrom, if_neg (by decide), if_neg (by simp [hprev rfl]), if_pos (by decide)]

theorem membersFrom_other (hc : c ∉ openingBrackets ++ closingBrackets) (hsep : c ∈ memberSeparators → 0 < depth) :
    membersFrom acc depth prev (c :: t) = membersFrom (c :: acc) depth c t := by
  simp only [openingBrackets, closingBrackets, List.cons_append, List.nil_append, List.mem_cons,
    List.not_mem_nil, or_false, not_or] at hc
  simp only [memberSeparators, List.mem_cons, List.not_mem_nil, or_false] at hsep
  rw [membersFrom, if_neg (by simp [hc]), if_neg (by simp [hc]), if_neg (by simp [hc]), if_neg]
  simp only [Bool.and_eq_true, Bool.or_eq_true, decide_eq_true_eq, not_and]
  intro h
  have := hsep (or_assoc.mp h)
  omega

theorem membersFrom_separator (hc : c ∈ memberSeparators) (hdepth : depth ≤ 0) :
    membersFrom acc depth prev (c :: t) = acc.reverse :: membersFrom [] depth c t := by
  simp only [memberSeparators, List.mem_cons, List.not_mem_nil, or_false] at hc
  rw [membersFrom]
  rcases hc with rfl | rfl | rfl <;> simp [hdepth]

theorem membersFrom_arrow :
    membersFrom acc depth prev ('=' :: '>' :: t) = membersFrom ('>' :: '=' :: acc) depth '>' t := by
  rw [membersFrom_other (by decide) (fun h => absurd h (by decide)), membersFrom, if_neg (by decide),
    if_pos (by decide)]

/-- **The cutting passes over a bracketed text** that may stand where it stands. -/
theorem membersFrom_bracketed (ht : Bracketed inside t) (hzero : 0 ≤ depth) (hdepth : inside = true → 0 < depth) :
    membersFrom acc depth prev (t ++ rest) = membersFrom (t.reverse ++ acc) depth (t.getLast?.getD prev) rest := by
  induction ht generalizing acc depth prev rest with
  | nil => rfl
  | other hc hsep _ ih =>
    rw [List.cons_append, membersFrom_other hc (fun h => hdepth (hsep h)), ih hzero hdepth, List.getLast?_cons]
    simp
  | arrow _ ih =>
    rw [List.cons_append, List.cons_append, membersFrom_arrow, ih hzero hdepth, List.getLast?_cons, List.getLast?_cons]
    simp
  | @nested b o c s t ho hc hlast _ _ ihs iht =>
    have hclose : c = '>' → s.getLast?.getD o ≠ '=' := by
      intro h
      cases hs : s.getLast? with
      | none =>
        rintro rfl
        revert ho
        decide
      | some x => exact fun hx => hlast h (by rw [hs, ← hx]; rfl)
    have hinner : 0 < depth + 1 := Int.lt_add_one_of_le hzero
    rw [List.cons_append, List.append_assoc, List.cons_append, membersFrom_open ho,
      ihs (Int.le_of_lt hinner) (fun _ => hinner), membersFrom_close hc hclose, Int.add_sub_cancel, iht hzero hdepth]
    simp [List.getLast?_cons, List.getLast?_append]

/-! ## The reading of a piece -/

/-- The name and type of a member, if the piece is one. -/
def memberField? (member : Text) : Option (Text × Text) := do
  let f ← propsField.find member
  return ((← f.group? 1).text, trim (← f.group? 2).text)

/-- What stands in front of the colon of a member: its name, and maybe a question mark. -/
def memberHead (name : Text) (optional : Bool) : Text := name ++ if optional then ['?'] else []

/-- Whether the text is a name as members have. -/
def IsMemberName (name : Text) : Prop := ∃ c t, name = c :: t ∧ c.isIdentStart = true ∧ ∀ x ∈ t, x.isName = true

/-- What a piece is made of that is read as a member. -/
theorem propsField_takes (h : propsField.Takes pre w post [] g) :
    pre = [] ∧ post = [] ∧ ∃ front name optional gap gap' v, w = front ++
      (memberHead name optional ++ (gap ++ ':' :: (gap' ++ v))) ∧
      (∀ x ∈ front, x ≠ ':') ∧ (front = [] ∨ ∃ x ∈ front, x.isBlank = true) ∧ IsMemberName name ∧
      (∀ x ∈ gap, x.isBlank = true) ∧ (∀ x ∈ gap', x.isBlank = true) ∧ v ≠ [] ∧ '\n' ∉ v ∧
      ((captures g).lookup 1).map Capture.text = some name ∧ ((captures g).lookup 2).map Capture.text = some v := by
  obtain ⟨_, _, _, rfl, ⟨rfl, rfl, hpre⟩, front, _, g₁, rfl, hfront, name, _, _, rfl, ⟨g₂, hname, rfl⟩, mark, _,
    g₃, rfl, hmark, gap, _, _, rfl, ⟨hgap, rfl⟩, colon, _, g₄, rfl, hcolon, gap', _, _, rfl, ⟨hgap', rfl⟩, v, _, _, rfl,
    ⟨g₅, hv, rfl⟩, rfl, rfl, hpost⟩ := h
  subst hpre hpost
  obtain rfl := groupless_takes rfl hfront
  obtain rfl := groupless_takes rfl hname
  obtain rfl := groupless_takes rfl hmark
  obtain rfl := literal_takes hcolon
  obtain rfl := groupless_takes rfl hcolon
  obtain rfl := groupless_takes rfl hv
  have hcolons : ∀ x ∈ front, x ≠ ':' := fun x hx h =>
    within_takes (s := [':']) (by decide) hfront x hx (List.mem_singleton.mpr h)
  have hblank : front = [] ∨ ∃ x ∈ front, x.isBlank = true := by
    rcases hfront with ⟨_, _, _, rfl, _, _, _, _, rfl, ⟨⟨x, rfl, hx⟩, _⟩, _⟩ | ⟨rfl, _⟩
    · exact Or.inr ⟨x, by simp, hx⟩
    · exact Or.inl rfl
  have hmember : IsMemberName name := by
    obtain ⟨_, t, _, rfl, ⟨⟨c, rfl, hc⟩, _⟩, ht, _⟩ := hname
    exact ⟨c, t, rfl, hc, ht⟩
  obtain ⟨x, v', hv', _⟩ := opens_takes (s := []) rfl hv
  have hbreak : '\n' ∉ v := fun h => within_takes (s := ['\n']) (by decide) hv _ h (List.mem_singleton_self _)
  obtain ⟨optional, rfl⟩ : ∃ optional : Bool, mark = if optional then ['?'] else [] := by
    rcases hmark with hmark | ⟨rfl, _⟩
    · exact ⟨true, literal_takes hmark⟩
    · exact ⟨false, rfl⟩
  refine ⟨rfl, rfl, front, name, optional, gap, gap', v, by simp [memberHead], hcolons, hblank, hmember, hgap, hgap',
    hv' ▸ List.cons_ne_nil x v', hbreak, ?_, ?_⟩
  · exact congrArg (fun c : Capture => some c.text) (Capture.between_behind _ _ _)
  · exact congrArg (fun c : Capture => some c.text) (Capture.between_behind _ v _)

/-- A piece that is read as a member is one. -/
theorem of_memberField? {r : Text × Text} (h : memberField? w = some r) : ∃ g, propsField.Takes [] w [] [] g ∧
    ∃ name v, ((captures g).lookup 1).map Capture.text = some name ∧ ((captures g).lookup 2).map Capture.text = some v ∧
      r = (name, trim v) := by
  simp only [memberField?, Option.bind_eq_bind, Option.bind_eq_some_iff] at h
  obtain ⟨m, hm, c, hc, d, hd, hr⟩ := h
  obtain ⟨pre, w', post, g, rfl, htakes, rfl⟩ := find_of hm
  obtain ⟨rfl, rfl, _⟩ := propsField_takes htakes
  rw [List.nil_append, List.append_nil]
  exact ⟨g, htakes, c.text, d.text, congrArg _ hc, congrArg _ hd, (Option.some.inj hr).symm⟩

theorem IsMemberName.isName (hname : IsMemberName name) : ∀ x ∈ name, x.isName = true := by
  obtain ⟨c, t, rfl, hc, ht⟩ := hname
  exact List.forall_mem_cons.mpr ⟨isName_of_isIdentStart hc, ht⟩

theorem mem_memberHead (hname : IsMemberName name) (optional : Bool) :
    ∀ x ∈ memberHead name optional, (x == ':') = false ∧ x.isBlank = false := by
  intro x hx
  rcases List.mem_append.mp hx with hx | hx
  · have hx := hname.isName x hx
    exact ⟨beq_eq_false_iff_ne.mpr fun h => absurd hx (by rw [h]; decide), not_isBlank_of_isName hx⟩
  · cases optional with
    | true => rw [List.mem_singleton.mp hx]; decide
    | false => cases hx

/-- The name is what there is in front of a question mark. -/
theorem takeWhile_memberHead (hname : IsMemberName name) (optional : Bool) :
    (memberHead name optional).takeWhile Char.isName = name := by
  rw [memberHead, List.takeWhile_append_of_pos hname.isName]
  cases optional <;> simp [show '?'.isName = false by decide]

/-- A member has one name and one type. -/
theorem eq_of_memberHead {front name' gap : Text} {optional optional' : Bool} (hname : IsMemberName name)
    (hname' : IsMemberName name') (hfront : front = [] ∨ ∃ x ∈ front, x.isBlank = true)
    (hcolon : ∀ x ∈ front, x ≠ ':') (hgap : ∀ x ∈ gap, x.isBlank = true)
    (h : memberHead name optional ++ ':' :: u = front ++ (memberHead name' optional' ++ (gap ++ ':' :: v))) :
    name' = name ∧ v = u := by
  have hhead := mem_memberHead hname optional
  have hcolon' : ∀ x ∈ front ++ (memberHead name' optional' ++ gap), (x == ':') = false := by
    simp only [List.forall_mem_append]
    refine ⟨fun x hx => beq_eq_false_iff_ne.mpr (hcolon x hx), fun x hx => (mem_memberHead hname' optional' x hx).1, ?_⟩
    exact fun x hx => beq_eq_false_iff_ne.mpr fun h => absurd (hgap x hx) (by rw [h]; decide)
  rw [show front ++ (memberHead name' optional' ++ (gap ++ ':' :: v)) =
    front ++ (memberHead name' optional' ++ gap) ++ ':' :: v by simp] at h
  obtain ⟨heq, _, rfl⟩ := append_cons_inj (· == ':') (fun x hx => (hhead x hx).1) hcolon' rfl rfl h
  -- there are no blanks in front of the colon
  have hink {x : Char} (hx : x ∈ front ++ (memberHead name' optional' ++ gap)) : x.isBlank = false :=
    (hhead x (heq ▸ hx)).2
  obtain rfl : front = [] := hfront.resolve_right fun ⟨x, hx, hblank⟩ => by
    simp [hink (List.mem_append_left _ hx)] at hblank
  obtain rfl : gap = [] := List.eq_nil_iff_forall_not_mem.mpr fun x hx => by
    simpa [hgap x hx] using hink (List.mem_append_right _ (List.mem_append_right _ hx))
  rw [List.nil_append, List.append_nil] at heq
  rw [← takeWhile_memberHead hname optional, heq, takeWhile_memberHead hname']
  exact ⟨rfl, rfl⟩

theorem exists_takes_propsField (hname : IsMemberName name) (optional : Bool) (hlead : ∀ x ∈ lead, x.isBlank = true)
    (hv : v ≠ []) (hbreak : '\n' ∉ v) :
    ∃ g, propsField.Takes [] (memberHead name optional ++ ':' :: (lead ++ v)) [] [] g := by
  have takes_name (pre post : Text) (g : Marks) : Pattern.name.Takes pre name post g g := by
    obtain ⟨c, t, rfl, hc, ht⟩ := hname
    exact ⟨[c], t, g, rfl, ⟨⟨c, rfl, hc⟩, rfl⟩, ht, rfl⟩
  have takes_mark (pre post : Text) (g : Marks) : (opt (lit "?")).Takes pre
      (if optional then ['?'] else []) post g g := by
    cases optional with
    | true => exact Or.inl (takes_literal _ _ _ _)
    | false => exact Or.inr ⟨rfl, rfl⟩
  have takes_type (pre post : Text) (g : Marks) : (many1 (· != '\n')).Takes pre v post g g := by
    obtain ⟨x, v, rfl⟩ := List.exists_cons_of_ne_nil hv
    have hplain : ∀ y ∈ x :: v, (y != '\n') = true := fun y hy => bne_iff_ne.mpr (ne_of_mem_of_not_mem hy hbreak)
    obtain ⟨hx, hplain⟩ := List.forall_mem_cons.mp hplain
    exact ⟨[x], v, g, rfl, ⟨⟨x, rfl, hx⟩, rfl⟩, hplain, rfl⟩
  rw [memberHead, List.append_assoc]
  exact ⟨_, [], _, _, rfl, ⟨rfl, rfl, rfl⟩, [], _, _, rfl, Or.inr ⟨rfl, rfl⟩, name, _, _, rfl,
    ⟨_, takes_name _ _ _, rfl⟩, _, _, _, rfl, takes_mark _ _ _, [], _, _, rfl, ⟨List.forall_mem_nil _, rfl⟩, [':'], _,
    _, rfl, takes_literal _ _ _ _, lead, _, _, rfl, ⟨hlead, rfl⟩, v, [], _, (List.append_nil v).symm,
    ⟨_, takes_type _ _ _, rfl⟩, rfl, rfl, rfl⟩

theorem isSome_memberField? (h : propsField.Takes [] w [] [] g) : (memberField? w).isSome := by
  have hfind := isSome_find h
  rw [List.append_nil] at hfind
  obtain ⟨m, hm⟩ := Option.isSome_iff_exists.mp hfind
  obtain ⟨_, _, _, g', _, htakes, rfl⟩ := find_of hm
  obtain ⟨_, _, _, _, _, _, _, _, _, _, _, _, _, _, _, _, hname, hv⟩ := propsField_takes htakes
  obtain ⟨c, hc, _⟩ := Option.map_eq_some_iff.mp hname
  obtain ⟨d, hd, _⟩ := Option.map_eq_some_iff.mp hv
  simp [memberField?, hm, Match.group?, hc, hd]

/-- **A member is read as its name and its type**, unless the type has a line break. -/
theorem memberField?_member (hname : IsMemberName name) (optional : Bool) (hu : trim u ≠ []) :
    memberField? (memberHead name optional ++ ':' :: trimEnd u) =
      if '\n' ∈ trim u then none else some (name, trim u) := by
  have hread {r : Text × Text} (h : memberField? (memberHead name optional ++ ':' :: trimEnd u) = some r) :
      '\n' ∉ trim u ∧ r = (name, trim u) := by
    obtain ⟨g, htakes, name', v, hname', hv, rfl⟩ := of_memberField? h
    obtain ⟨_, _, front, n, optional', gap, lead, v', heq, hcolon, hfront, hn, hgap, hlead, _, hbreak, hn', hv'⟩ :=
      propsField_takes htakes
    obtain rfl := Option.some.inj (hname'.symm.trans hn')
    obtain rfl := Option.some.inj (hv.symm.trans hv')
    obtain ⟨rfl, hu⟩ := eq_of_memberHead hname hn hfront hcolon hgap heq
    have htrim : trim v = trim u := by rw [← trim_lead hlead, hu, trim_trimEnd]
    exact ⟨fun h => hbreak (mem_of_mem_trim (htrim ▸ h)), by rw [htrim]⟩
  split
  · rename_i hbreak
    exact Option.eq_none_iff_forall_ne_some.mpr fun r hr => (hread hr).1 hbreak
  · rename_i hbreak
    obtain ⟨lead, hlead, hend⟩ := exists_lead_trimEnd u
    obtain ⟨g, htakes⟩ := exists_takes_propsField hname optional hlead hu hbreak
    rw [← hend] at htakes
    obtain ⟨r, hr⟩ := Option.isSome_iff_exists.mp (isSome_memberField? htakes)
    rw [hr, (hread hr).2]

theorem memberField?_of_not_mem (h : ':' ∉ w) : memberField? w = none := by
  refine Option.eq_none_iff_forall_ne_some.mpr fun r hr => h ?_
  obtain ⟨g, htakes, _⟩ := of_memberField? hr
  obtain ⟨_, _, _, _, _, _, _, _, rfl, _⟩ := propsField_takes htakes
  simp

theorem memberField?_of_head (h : ∀ x ∈ w.head?, x ∈ ['/', '*']) : memberField? w = none := by
  refine Option.eq_none_iff_forall_ne_some.mpr fun r hr => ?_
  obtain ⟨g, htakes, _⟩ := of_memberField? hr
  obtain ⟨x, t, rfl, hx⟩ := opens_takes (s := ['/', '*']) (by decide) htakes
  exact hx (h x rfl)

/-! ## The reading of a body -/

/-- The members among pieces. -/
def memberFields (pieces : List Text) : List (Text × Text) := pieces.filterMap fun p => memberField? (trim p)

/-- Comments and blank pieces need not be left out, as they are not read as members. -/
theorem filterMap_topLevelMembers (body : Text) :
    (topLevelMembers body).filterMap memberField? = memberFields (membersFrom [] 0 '\x00' body) := by
  rw [topLevelMembers, List.filterMap_filter, List.filterMap_map, memberFields]
  refine List.filterMap_congr fun p _ => ?_
  simp only [Function.comp_apply]
  split
  · rfl
  · rename_i hcomment
    refine (memberField?_of_head fun x hx => ?_).symm
    obtain ⟨t, ht⟩ : ∃ t, trim p = x :: t := ⟨_, List.eq_cons_of_mem_head? hx⟩
    rw [ht] at hcomment
    by_contra hx'
    simp only [List.mem_cons, List.not_mem_nil, or_false, not_or] at hx'
    simp [startsWith, List.isPrefixOf, Ne.symm hx'.1, Ne.symm hx'.2] at hcomment

theorem memberFields_cons (p : Text) (ps : List Text) :
    memberFields (p :: ps) = (memberField? (trim p)).toList ++ memberFields ps := by
  rw [memberFields, List.filterMap_cons]
  cases memberField? (trim p) <;> rfl

/-- A piece of blanks is not read as a member. -/
theorem memberField?_blanks (hw : ∀ x ∈ w, x.isBlank = true) : memberField? (trim w) = none := by
  rw [← List.nil_append w, trim_append hw]
  exact memberField?_of_head (by simp [trim, trimStart, trimEnd, trimEndBy])

/-- Blanks in front of a member make no difference. -/
theorem exists_membersFrom_blanks (hacc : ∀ x ∈ acc, x.isBlank = true) (hw : ∀ x ∈ w, x.isBlank = true) (prev : Char)
    (rest : Text) : ∃ acc' prev', (∀ x ∈ acc', x.isBlank = true) ∧
      memberFields (membersFrom acc 0 prev (w ++ rest)) = memberFields (membersFrom acc' 0 prev' rest) := by
  induction w generalizing acc prev with
  | nil => exact ⟨acc, prev, hacc, rfl⟩
  | cons c w ih =>
    obtain ⟨hc, hw⟩ := List.forall_mem_cons.mp hw
    rw [List.cons_append]
    by_cases hsep : c ∈ memberSeparators
    · obtain ⟨acc', prev', hacc', heq⟩ := ih (List.forall_mem_nil _) hw c
      have hpiece : memberField? (trim acc.reverse) = none := memberField?_blanks fun x hx =>
        hacc x (List.mem_reverse.mp hx)
      refine ⟨acc', prev', hacc', ?_⟩
      rw [membersFrom_separator hsep (Int.le_refl 0), memberFields_cons, hpiece, ← heq]
      rfl
    · have hother : c ∉ openingBrackets ++ closingBrackets := by
        intro hmem
        have hall : ∀ b ∈ openingBrackets ++ closingBrackets, b.isBlank = false := by decide
        rw [hall c hmem] at hc
        cases hc
      obtain ⟨acc', prev', hacc', heq⟩ := ih (List.forall_mem_cons.mpr ⟨hc, hacc⟩) hw c
      exact ⟨acc', prev', hacc', by rw [membersFrom_other hother fun h => absurd h hsep, heq]⟩

/-- Pieces with separators between them, and one behind them. -/
def piecesText (p : Text) (more : List (Char × Text)) (stop : Char) : Text :=
  p ++ (more.flatMap fun x => x.1 :: x.2) ++ [stop]

theorem memberFields_piecesText {more : List (Char × Text)} {stop : Char} (hacc : ∀ x ∈ acc, x.isBlank = true)
    (hp : Bracketed false p) (hmore : ∀ x ∈ more, x.1 ∈ memberSeparators ∧ Bracketed false x.2)
    (hstop : stop ∈ memberSeparators) (prev : Char) (rest : Text) :
    memberFields (membersFrom acc 0 prev (piecesText p more stop ++ rest)) =
      memberFields (p :: more.map Prod.snd) ++ memberFields (membersFrom [] 0 stop rest) := by
  have htrim : trim (p.reverse ++ acc).reverse = trim p := by
    rw [List.reverse_append, List.reverse_reverse, trim_lead fun x hx => hacc x (List.mem_reverse.mp hx)]
  induction more generalizing acc p prev with
  | nil =>
    rw [piecesText, List.flatMap_nil, List.append_nil, List.append_assoc,
      membersFrom_bracketed hp (Int.le_refl 0) (fun h => by cases h), List.singleton_append,
      membersFrom_separator hstop (Int.le_refl 0), memberFields_cons, htrim, List.map_nil, memberFields_cons p []]
    simp [memberFields]
  | cons x more ih =>
    obtain ⟨⟨hx, hpx⟩, hmore⟩ := List.forall_mem_cons.mp hmore
    have htext : piecesText p (x :: more) stop ++ rest = p ++ x.1 :: (piecesText x.2 more stop ++ rest) := by
      simp [piecesText]
    rw [htext, membersFrom_bracketed hp (Int.le_refl 0) (fun h => by cases h),
      membersFrom_separator hx (Int.le_refl 0), memberFields_cons, htrim,
      ih (List.forall_mem_nil _) hpx hmore x.1 (by simp), List.map_cons, memberFields_cons p, List.append_assoc]

/-- A part of the body of a type: a member, or a comment up to the end of the line, in which more pieces may stand
behind separators. -/
inductive BodyPart where
  | member (lead name : Text) (optional : Bool) (type : Text) (stop : Char)
  | comment (lead text : Text) (more : List (Char × Text))

namespace BodyPart

/-- The text of the part. -/
def text : BodyPart → Text
  | member lead name optional type stop => lead ++ piecesText (memberHead name optional ++ ':' :: type) [] stop
  | comment lead text more => lead ++ piecesText ("//".toList ++ text) more '\n'

/-- Whether the part may stand in a body. The brackets in a comment are counted like those of a type, so they have to
match each other too, in each piece of it: behind an open one no separator would end a member, and behind a closing
one those in the next brackets would. -/
def Fits : BodyPart → Prop
  | member lead name _ type stop =>
    (∀ x ∈ lead, x.isBlank = true) ∧ IsMemberName name ∧ trim type ≠ [] ∧ Bracketed false type ∧
      Balanced '\x7b' '\x7d' type ∧ stop ∈ memberSeparators
  | comment lead text more =>
    (∀ x ∈ lead, x.isBlank = true) ∧ ∀ x ∈ (';', text) :: more, x.1 ∈ [';', ','] ∧ Bracketed false x.2 ∧
      ∀ c ∈ x.2, c ∉ ['\x7b', '\x7d', '\n']

/-- The properties that the part declares. -/
def declares : BodyPart → List (Text × Text)
  | member _ name _ type _ => [(name, trim type)]
  | comment .. => []

/-- Whether what is read off the part is what it declares: its type has no line break, or no colon stands in its
comment behind a separator. -/
def IsSimple : BodyPart → Prop
  | member _ _ _ type _ => '\n' ∉ type
  | comment _ _ more => ∀ x ∈ more, ':' ∉ x.2

instance : (part : BodyPart) → Decidable part.IsSimple
  | member .. => inferInstanceAs (Decidable ('\n' ∉ _))
  | comment _ _ more => inferInstanceAs (Decidable (∀ x ∈ more, _))

/-- The members that are read off the part. -/
def fields : BodyPart → List (Text × Text)
  | member _ name _ type _ => if '\n' ∈ trim type then [] else [(name, trim type)]
  | comment _ _ more => memberFields (more.map Prod.snd)

theorem fields_eq_declares {part : BodyPart} (h : part.IsSimple) : part.fields = part.declares := by
  cases part with
  | member lead name optional type stop => exact if_neg fun hbreak => h (mem_of_mem_trim hbreak)
  | comment lead text more =>
    rw [fields, memberFields, List.filterMap_map, List.filterMap_eq_nil_iff.mpr]
    · rfl
    · exact fun x hx => memberField?_of_not_mem fun hcolon => h x hx (mem_of_mem_trim hcolon)

/-- The braces of a part match each other. -/
theorem Fits.balanced {part : BodyPart} (h : part.Fits) : Balanced '\x7b' '\x7d' part.text := by
  have plain {p : Char → Bool} {t : Text} (ht : ∀ x ∈ t, p x = true) (hopen : p '\x7b' = false)
      (hclose : p '\x7d' = false) :
      Balanced '\x7b' '\x7d' t := balanced_of_forall fun x hx =>
    ⟨beq_eq_false_iff_ne.mp (beq_of_class hopen (ht x hx)), beq_eq_false_iff_ne.mp (beq_of_class hclose (ht x hx))⟩
  cases part with
  | member lead name optional type stop =>
    obtain ⟨hlead, hname, _, _, htype, hstop⟩ := h
    have hseparators : ∀ c ∈ memberSeparators, c ≠ '\x7b' ∧ c ≠ '\x7d' := by decide
    have hstop : Balanced '\x7b' '\x7d' [stop] := .other (hseparators stop hstop).1 (hseparators stop hstop).2 .nil
    have hmark : Balanced '\x7b' '\x7d' (if optional then ['?'] else []) := by
      cases optional with
      | true => exact .other (by decide) (by decide) .nil
      | false => exact .nil
    have hcolon : Balanced '\x7b' '\x7d' (':' :: type) := .other (by decide) (by decide) htype
    have hmember := ((plain hname.isName (by decide) (by decide)).append hmark).append hcolon
    exact (plain hlead (by decide) (by decide)).append ((hmember.append .nil).append hstop)
  | comment lead text more =>
    obtain ⟨hlead, hpieces⟩ := h
    have hpiece : ∀ x ∈ (';', text) :: more, Balanced '\x7b' '\x7d' x.2 := fun x hx =>
      balanced_of_forall fun c hc => by
        have := (hpieces x hx).2.2 c hc
        simp_all
    obtain ⟨hfirst, hmore⟩ := List.forall_mem_cons.mp hpiece
    have hpieces : Balanced '\x7b' '\x7d' (more.flatMap fun x => x.1 :: x.2) := balanced_flatMap fun x hx => by
      have hseparators : ∀ c ∈ [';', ','], c ≠ '\x7b' ∧ c ≠ '\x7d' := by decide
      obtain ⟨hopen, hclose⟩ := hseparators x.1 (hpieces x (List.mem_cons_of_mem _ hx)).1
      exact .other hopen hclose (hmore x hx)
    have hmark : Balanced '\x7b' '\x7d' ("//".toList ++ text) := (balanced_of_forall (by decide)).append hfirst
    exact (plain hlead (by decide) (by decide)).append ((hmark.append hpieces).append (balanced_of_forall (by decide)))

end BodyPart

theorem bracketed_member (hname : IsMemberName name) (optional : Bool) (htype : Bracketed false type) :
    Bracketed false (memberHead name optional ++ ':' :: type) := by
  have hhead : ∀ x ∈ memberHead name optional, x ∉ openingBrackets ++ closingBrackets ∧
      (x ∈ memberSeparators → false = true) := by
    intro x hx
    rcases List.mem_append.mp hx with hx | hx
    · have hall : ∀ b ∈ openingBrackets ++ closingBrackets ++ memberSeparators, b.isName = false := by decide
      have hother : x ∉ openingBrackets ++ closingBrackets ++ memberSeparators := fun hmem => by
        simpa [hall x hmem] using hname.isName x hx
      exact ⟨fun h => hother (List.mem_append_left _ h), fun h => absurd (List.mem_append_right _ h) hother⟩
    · cases optional with
      | true =>
        rw [List.mem_singleton.mp hx]
        decide
      | false => cases hx
  exact (bracketed_of_forall hhead).append (.other (by decide) (fun h => absurd h (by decide)) htype)

theorem trim_member (hname : IsMemberName name) (optional : Bool) (type : Text) :
    trim (memberHead name optional ++ ':' :: type) = memberHead name optional ++ ':' :: trimEnd type := by
  have hstart : trimStart (memberHead name optional ++ ':' :: type) = memberHead name optional ++ ':' :: type := by
    obtain ⟨c, t, rfl, _⟩ := id hname
    exact trimStart_cons (mem_memberHead hname optional c List.mem_cons_self).2 _
  rw [trim, hstart, trimEnd_append_cons (by decide)]

/-- A comment is not read as a member. -/
theorem memberField?_comment (text : Text) : memberField? (trim ("//".toList ++ text)) = none := by
  have htrim : trim ("//".toList ++ text) = '/' :: trimEnd ('/' :: text) :=
    trimEnd_append_cons (by decide) [] ('/' :: text)
  exact memberField?_of_head (by rw [htrim]; simp)

/-- A part is read by itself. -/
theorem exists_membersFrom_part {part : BodyPart} (hpart : part.Fits) (hacc : ∀ x ∈ acc, x.isBlank = true) (prev : Char)
    (rest : Text) : ∃ prev', memberFields (membersFrom acc 0 prev (part.text ++ rest)) =
      part.fields ++ memberFields (membersFrom [] 0 prev' rest) := by
  have htext (lead p : Text) (more : List (Char × Text)) (stop : Char) :
      lead ++ piecesText p more stop ++ rest = lead ++ (piecesText p more stop ++ rest) := List.append_assoc _ _ _
  cases part with
  | member lead name optional type stop =>
    obtain ⟨hlead, hname, htype, hbracketed, _, hstop⟩ := hpart
    obtain ⟨acc', prev', hacc', heq⟩ := exists_membersFrom_blanks hacc hlead prev _
    refine ⟨stop, ?_⟩
    rw [BodyPart.text, htext, heq, memberFields_piecesText hacc' (bracketed_member hname optional hbracketed)
      (List.forall_mem_nil _) hstop, List.map_nil, memberFields_cons, trim_member hname,
      memberField?_member hname optional htype, BodyPart.fields]
    split <;> rfl
  | comment lead text more =>
    obtain ⟨hlead, hpieces⟩ := hpart
    obtain ⟨⟨_, hfirst, _⟩, hmore⟩ := List.forall_mem_cons.mp hpieces
    have hmark : Bracketed false ("//".toList ++ text) := (bracketed_of_forall (by decide)).append hfirst
    have hseparators : ∀ x ∈ more, x.1 ∈ memberSeparators ∧ Bracketed false x.2 := fun x hx => by
      obtain ⟨hsep, hbracketed, _⟩ := hmore x hx
      exact ⟨List.mem_append_left ['\n'] hsep, hbracketed⟩
    obtain ⟨acc', prev', hacc', heq⟩ := exists_membersFrom_blanks hacc hlead prev _
    refine ⟨'\n', ?_⟩
    rw [BodyPart.text, htext, heq, memberFields_piecesText hacc' hmark hseparators (by decide), memberFields_cons,
      memberField?_comment, BodyPart.fields]
    rfl

/-- **The parts of a body are read one by one.** -/
theorem memberFields_parts {parts : List BodyPart} (hparts : ∀ part ∈ parts, part.Fits)
    (hw : ∀ x ∈ w, x.isBlank = true) :
    memberFields (membersFrom [] 0 '\x00' (parts.flatMap BodyPart.text ++ w)) = parts.flatMap BodyPart.fields := by
  suffices h : ∀ acc prev, (∀ x ∈ acc, x.isBlank = true) →
      memberFields (membersFrom acc 0 prev (parts.flatMap BodyPart.text ++ w)) = parts.flatMap BodyPart.fields from
    h [] _ (List.forall_mem_nil _)
  induction parts with
  | nil =>
    intro acc prev hacc
    obtain ⟨acc', prev', hacc', heq⟩ := exists_membersFrom_blanks hacc hw prev []
    rw [List.append_nil] at heq
    rw [List.flatMap_nil, List.nil_append, heq, membersFrom, memberFields_cons, memberField?_blanks]
    · rfl
    · exact fun x hx => hacc' x (List.mem_reverse.mp hx)
  | cons part parts ih =>
    intro acc prev hacc
    obtain ⟨hpart, hparts⟩ := List.forall_mem_cons.mp hparts
    obtain ⟨prev', heq⟩ := exists_membersFrom_part hpart hacc prev (parts.flatMap BodyPart.text ++ w)
    rw [List.flatMap_cons, List.flatMap_cons, List.append_assoc, heq, ih hparts [] prev' (List.forall_mem_nil _)]

end Checkup
