import Checkup.Proofs.Pattern.Name
import Checkup.Proofs.Rule.PropsMember
import Checkup.Proofs.Text.Lines

/-!
# The types that list properties

`propsHeader` is the start of such a type, as it is written. Where one stands, `propsStart` takes it and nothing else,
so the body that is read is what stands behind it, up to the brace that closes it.

* `exists_takes_propsStart`, `eq_header`: at the start of a line the pattern takes a header up to its brace, and nothing
  else.
* `propsBlocks_parts`: the fields of a type are what is read off the parts of its body, one by one and in order. Those
  are the properties it declares, unless a type has a line break or a comment has a colon behind a semicolon or a
  comma.
-/

namespace Checkup

open Pattern Text
open Cursor (behind)

variable {pre before after margin modifier keyword name w post t : Text} {exported aliased : Bool}
  {parts : List BodyPart} {g g' : Marks}

/-! ## Headers -/

/-- Whether the text is the name of a type that lists properties. -/
def IsPropsName (name : Text) : Prop :=
  ∃ c mid, name = c :: (mid ++ "Props".toList) ∧ c.isUpper = true ∧ ∀ x ∈ mid, x.isName = true

/-- The header up to its brace, without what may stand in front of it: that of an interface or of a named type. -/
def propsKeyword (aliased : Bool) (name : Text) : Text :=
  if aliased then "type ".toList ++ (name ++ " = \x7b".toList) else "interface ".toList ++ (name ++ " \x7b".toList)

/-- The start of a type that lists properties. -/
def propsHeader (exported aliased : Bool) (name : Text) : Text :=
  (if exported then "export ".toList else []) ++ propsKeyword aliased name

theorem gap_takes_space (pre post : Text) (g : Marks) : gap.Takes pre [' '] post g g :=
  gap_takes_iff.mpr ⟨⟨List.cons_ne_nil _ _, by decide⟩, rfl⟩

theorem isModifier_export (exported : Bool) :
    IsModifier "export".toList (if exported then "export ".toList else []) := by
  cases exported with
  | true => exact Or.inr ⟨[' '], rfl, List.cons_ne_nil _ _, by decide⟩
  | false => exact Or.inl rfl

theorem IsPropsName.takes (hname : IsPropsName name) (pre post : Text) (g : Marks) :
    (capitalName ++ lit "Props").Takes pre name post g g := by
  obtain ⟨c, mid, rfl, hc, hmid⟩ := hname
  exact ⟨c :: mid, "Props".toList, g, rfl, capitalName_takes_iff.mpr ⟨⟨c, mid, rfl, hc, hmid⟩, rfl⟩,
    takes_literal _ _ _ _⟩

/-- The start of an interface that lists properties. -/
def interfaceStart : Pattern :=
  seqAll [lit "interface", gap, group 1 (capitalName ++ lit "Props"), wordBoundary,
    many (butNot ['\x7b', '=']), lit "\x7b"]

/-- The start of a named type that lists properties. -/
def aliasStart : Pattern :=
  seqAll [lit "type", gap, group 2 (capitalName ++ lit "Props"), blanks, opt (enclosed '<' '>'), blanks,
    lit "=", blanks, lit "\x7b"]

theorem propsStart_eq : propsStart =
    seqAll [lineStart, spaces, opt (lit "export" ++ gap), alt interfaceStart aliasStart] := rfl

theorem exists_takes_interfaceStart (hname : IsPropsName name) (pre post : Text) :
    ∃ g, interfaceStart.Takes pre (propsKeyword false name) post [] g := by
  have hboundary (pre rest : Text) : (behind (pre ++ name) (' ' :: rest)).atWordBoundary = true := by
    obtain ⟨c, mid, rfl, _⟩ := hname
    refine (atWordBoundary_behind ?_ pre _).mpr (by simp; decide)
    rw [← List.cons_append, List.getLast?_append_of_ne_nil _ (by decide)]
    decide
  exact ⟨_, "interface".toList, _, _, rfl, takes_literal _ _ _ _, [' '], _, _, rfl, gap_takes_space _ _ _,
    name, _, _, rfl, ⟨_, hname.takes _ _ _, rfl⟩, [], _, _, rfl, ⟨rfl, rfl, hboundary _ _⟩, [' '], ['\x7b'], _, rfl,
    ⟨by decide, rfl⟩, takes_literal _ _ _ _⟩

theorem exists_takes_aliasStart (hname : IsPropsName name) (pre post : Text) :
    ∃ g, aliasStart.Takes pre (propsKeyword true name) post [] g := by
  have blanks_takes (pre post : Text) (g : Marks) : blanks.Takes pre [' '] post g g := ⟨by decide, rfl⟩
  exact ⟨_, "type".toList, _, _, rfl, takes_literal _ _ _ _, [' '], _, _, rfl, gap_takes_space _ _ _, name, _, _, rfl,
    ⟨_, hname.takes _ _ _, rfl⟩, [' '], _, _, rfl, blanks_takes _ _ _, [], _, _, rfl, Or.inr ⟨rfl, rfl⟩, [], _, _, rfl,
    ⟨List.forall_mem_nil _, rfl⟩, ['='], _, _, rfl, takes_literal _ _ _ _, [' '], ['\x7b'], _, rfl, blanks_takes _ _ _,
    takes_literal _ _ _ _⟩

/-- The pattern takes a header at the start of a line. -/
theorem exists_takes_propsStart (hbefore : before.EndsLine) (hmargin : ∀ x ∈ margin, x = ' ' ∨ x = '\t')
    (hname : IsPropsName name) (exported aliased : Bool) (post : Text) :
    ∃ g, propsStart.Takes before (margin ++ propsHeader exported aliased name) post [] g := by
  have hline (rest : Text) : (behind before rest).atLineStart = true := by
    rw [Cursor.atLineStart, Option.all_eq_true]
    exact fun c hc => beq_iff_eq.mpr (hbefore c hc)
  have takes_keyword (pre post : Text) :
      ∃ g, (alt interfaceStart aliasStart).Takes pre (propsKeyword aliased name) post [] g := by
    cases aliased with
    | false => exact (exists_takes_interfaceStart hname pre post).imp fun _ => Or.inl
    | true => exact (exists_takes_aliasStart hname pre post).imp fun _ => Or.inr
  obtain ⟨g, hkeyword⟩ := takes_keyword _ post
  rw [propsStart_eq]
  exact ⟨g, [], _, _, rfl, ⟨rfl, rfl, hline _⟩, margin, _, _, rfl,
    ⟨fun x hx => by simpa using hmargin x hx, rfl⟩, _, _, _, rfl,
    modifier_takes_iff.mpr ⟨isModifier_export exported, rfl⟩, hkeyword⟩

theorem interfaceStart_takes (h : interfaceStart.Takes pre w post [] g) :
    ∃ y, w = 'i' :: (y ++ ['\x7b']) ∧ '\x7b' ∉ 'i' :: y ∧ ((captures g).lookup 1).isSome := by
  obtain ⟨word, _, _, rfl, hword, space, _, _, rfl, hspace, name, _, _, rfl, ⟨_, hname, rfl⟩, _, _, _, rfl,
    ⟨rfl, rfl, _⟩, more, _, _, rfl, hmore, hbrace⟩ := h
  have hspace' := within_takes (s := ['\x7b']) (by decide) hspace
  have hname' := within_takes (s := ['\x7b']) (by decide) hname
  have hmore' := within_takes (s := ['\x7b']) (by decide) hmore
  obtain rfl := literal_takes hword
  obtain rfl := literal_takes hbrace
  obtain rfl := groupless_takes rfl hbrace
  obtain rfl := groupless_takes rfl hmore
  refine ⟨"nterface".toList ++ (space ++ (name ++ more)), by simp, ?_, rfl⟩
  rw [← List.cons_append]
  simp only [List.mem_append, not_or]
  exact ⟨by decide, fun h => hspace' _ h List.mem_cons_self, fun h => hname' _ h List.mem_cons_self,
    fun h => hmore' _ h List.mem_cons_self⟩

theorem aliasStart_takes (h : aliasStart.Takes pre w post [] g) :
    ∃ y, (∀ x ∈ 't' :: y, x ∉ ['<', '=']) ∧ ((captures g).lookup 2).isSome ∧ ((∃ z, w = 't' :: (y ++ '<' :: z)) ∨
      ∃ space, w = 't' :: (y ++ '=' :: (space ++ ['\x7b'])) ∧ ∀ x ∈ space, x.isBlank = true) := by
  obtain ⟨word, _, _, rfl, hword, space, _, _, rfl, hspace, name, _, _, rfl, ⟨_, hname, rfl⟩, w₁, _, _, rfl,
    hw₁, params, _, _, rfl, hparams, w₂, _, _, rfl, hw₂, equals, _, _, rfl, hequals, w₃, _, _, rfl, hw₃, hbrace⟩ := h
  have hspace' := within_takes (s := ['<', '=']) (by decide) hspace
  have hname' := within_takes (s := ['<', '=']) (by decide) hname
  have hw₁' := within_takes (s := ['<', '=']) (by decide) hw₁
  have hw₂' := within_takes (s := ['<', '=']) (by decide) hw₂
  obtain rfl := literal_takes hword
  obtain rfl := literal_takes hequals
  obtain rfl := literal_takes hbrace
  obtain rfl := groupless_takes rfl hbrace
  obtain rfl := groupless_takes rfl hw₃
  obtain rfl := groupless_takes rfl hequals
  obtain rfl := groupless_takes rfl hw₂
  obtain rfl := groupless_takes rfl hparams
  obtain rfl := groupless_takes rfl hw₁
  have hfront (u : Text) (hu : ∀ x ∈ u, x ∉ ['<', '=']) : ∀ x ∈ 't' :: ("ype".toList ++ (space ++ (name ++ u))),
      x ∉ ['<', '='] := by
    rw [← List.cons_append]
    simp only [List.forall_mem_append]
    exact ⟨by decide, hspace', hname', hu⟩
  rcases hparams with ⟨_, z, _, rfl, ⟨_, u, _, rfl, ⟨⟨x, rfl, hx⟩, _⟩, _⟩, _⟩ | ⟨rfl, _⟩
  · refine ⟨_, hfront w₁ hw₁', rfl, Or.inl ⟨u ++ (z ++ (w₂ ++ '=' :: (w₃ ++ ['\x7b']))), ?_⟩⟩
    simp [eq_of_beq hx]
  · refine ⟨_, hfront (w₁ ++ w₂) (List.forall_mem_append.mpr ⟨hw₁', hw₂'⟩), rfl, Or.inr ⟨w₃, ?_, hw₃.1⟩⟩
    simp

theorem IsPropsName.isName (hname : IsPropsName name) : ∀ x ∈ name, x.isName = true := by
  obtain ⟨c, mid, rfl, hc, hmid⟩ := hname
  exact IsCapitalName.isName ⟨c, mid ++ "Props".toList, rfl, hc, List.forall_mem_append.mpr ⟨hmid, by decide⟩⟩

/-- What the pattern takes of an interface. -/
theorem eq_interface (hname : IsPropsName name) (h : interfaceStart.Takes pre w post [] g)
    (htext : w ++ post = propsKeyword false name ++ t) : w = propsKeyword false name := by
  obtain ⟨y, rfl, hy, _⟩ := interfaceStart_takes h
  have hkeyword : ∀ x ∈ "interface ".toList ++ (name ++ [' ']), (x == '\x7b') = false := by
    simp only [List.forall_mem_append]
    exact ⟨by decide, fun x hx => beq_of_class (by decide) (hname.isName x hx), by decide⟩
  have hsplit : 'i' :: y ++ '\x7b' :: post = "interface ".toList ++ (name ++ [' ']) ++ '\x7b' :: t := by
    rw [List.cons_append, List.append_assoc, propsKeyword, if_neg Bool.false_ne_true, List.append_assoc,
      List.append_assoc] at htext
    rw [List.append_assoc, List.append_assoc]
    exact htext
  have hy' : ∀ x ∈ 'i' :: y, (x == '\x7b') = false := fun x hx => beq_eq_false_iff_ne.mpr (ne_of_mem_of_not_mem hx hy)
  obtain ⟨heq, _⟩ := append_cons_inj (· == '\x7b') hy' hkeyword rfl rfl hsplit
  rw [← List.cons_append, heq, propsKeyword, if_neg Bool.false_ne_true, List.append_assoc, List.append_assoc]
  rfl

/-- What it takes of a named type. -/
theorem eq_alias (hname : IsPropsName name) (h : aliasStart.Takes pre w post [] g)
    (htext : w ++ post = propsKeyword true name ++ t) : w = propsKeyword true name := by
  obtain ⟨y, hy, _, hw⟩ := aliasStart_takes h
  have hkeyword : ∀ x ∈ "type ".toList ++ (name ++ [' ']), (x == '<' || x == '=') = false := by
    simp only [List.forall_mem_append, Bool.or_eq_false_iff]
    refine ⟨by decide, fun x hx => ?_, by decide⟩
    exact ⟨beq_of_class (by decide) (hname.isName x hx), beq_of_class (by decide) (hname.isName x hx)⟩
  have hy' : ∀ x ∈ 't' :: y, (x == '<' || x == '=') = false := fun x hx => by simpa using hy x hx
  have htext' : w ++ post = "type ".toList ++ (name ++ [' ']) ++ '=' :: ([' '] ++ '\x7b' :: t) := by
    rw [htext, propsKeyword, if_pos rfl, List.append_assoc, List.append_assoc, List.append_assoc, List.append_assoc]
    rfl
  rcases hw with ⟨z, rfl⟩ | ⟨space, rfl, hspace⟩
  · rw [List.cons_append, List.append_assoc, ← List.cons_append, List.cons_append] at htext'
    obtain ⟨_, hne, _⟩ := append_cons_inj (fun x => x == '<' || x == '=') hy' hkeyword rfl rfl htext'
    cases hne
  · rw [List.cons_append, List.append_assoc, ← List.cons_append, List.cons_append] at htext'
    obtain ⟨heq, _, hrest⟩ := append_cons_inj (fun x => x == '<' || x == '=') hy' hkeyword rfl rfl htext'
    rw [List.append_eq, List.append_assoc] at hrest
    have hblank : ∀ x ∈ [' '], x.isBlank = true := by decide
    have hbrace (u : Text) : ∀ x ∈ ('\x7b' :: u).head?, x.isBlank = false := fun x hx => by cases hx; decide
    obtain ⟨rfl, _⟩ := append_inj_of_class hspace hblank (hbrace post) (hbrace t) hrest
    rw [← List.cons_append, heq, propsKeyword, if_pos rfl, List.append_assoc, List.append_assoc]
    rfl

/-- What it takes of either starts with a letter of its own. -/
theorem eq_keyword (hname : IsPropsName name) (h : (alt interfaceStart aliasStart).Takes pre w post [] g)
    (htext : w ++ post = propsKeyword aliased name ++ t) :
    w = propsKeyword aliased name ∧ (((captures g).lookup 1).or ((captures g).lookup 2)).isSome := by
  rcases h with h | h
  · obtain ⟨y, hw, _, hgroup⟩ := interfaceStart_takes h
    cases aliased with
    | false => exact ⟨eq_interface hname h htext, by simp [hgroup]⟩
    | true =>
      rw [hw] at htext
      cases (List.cons.inj htext).1
  · obtain ⟨y, _, hgroup, hw⟩ := aliasStart_takes h
    cases aliased with
    | false => rcases hw with ⟨_, rfl⟩ | ⟨_, rfl, _⟩ <;> cases (List.cons.inj htext).1
    | true => exact ⟨eq_alias hname h htext, by simp [hgroup]⟩

theorem head_takes_keyword (h : (alt interfaceStart aliasStart).Takes pre w post [] g) :
    ∃ x ∈ ['i', 't'], ∃ u, w = x :: u := by
  rcases h with h | h
  · obtain ⟨y, rfl, _⟩ := interfaceStart_takes h
    exact ⟨'i', by decide, _, rfl⟩
  · obtain ⟨y, _, _, ⟨_, rfl⟩ | ⟨_, rfl, _⟩⟩ := aliasStart_takes h
    · exact ⟨'t', by decide, _, rfl⟩
    · exact ⟨'t', by decide, _, rfl⟩

theorem head_propsKeyword (aliased : Bool) (name : Text) :
    ∃ x ∈ ['i', 't'], ∃ u, propsKeyword aliased name = x :: u := by
  cases aliased with
  | true => exact ⟨'t', by decide, _, rfl⟩
  | false => exact ⟨'i', by decide, _, rfl⟩

/-- A header starts with one of three letters. -/
theorem head_header (hmodifier : IsModifier "export".toList modifier)
    (hkeyword : ∃ x ∈ ['i', 't'], ∃ u, keyword = x :: u)
    (t : Text) : ∀ x ∈ (modifier ++ (keyword ++ t)).head?, x ∈ ['e', 'i', 't'] := by
  obtain ⟨y, hy, u, rfl⟩ := hkeyword
  intro x hx
  rcases hmodifier.head hx with rfl | hx
  · decide
  · cases hx
    exact List.mem_cons_of_mem 'e' hy

/-- It takes nothing else there, and names the type. -/
theorem eq_header (hmargin : ∀ x ∈ margin, x = ' ' ∨ x = '\t') (hname : IsPropsName name)
    (h : propsStart.Takes before w post [] g) (htext : w ++ post = margin ++ (propsHeader exported aliased name ++ t)) :
    w = margin ++ propsHeader exported aliased name ∧
      (((captures g).lookup 1).or ((captures g).lookup 2)).isSome := by
  rw [propsStart_eq] at h
  obtain ⟨_, _, _, rfl, ⟨rfl, rfl, _⟩, margin', _, _, rfl, ⟨hmargin', rfl⟩, modifier, keyword, _, rfl, hmodifier,
    hkeyword⟩ := h
  obtain ⟨hexport, rfl⟩ := modifier_takes_iff.mp hmodifier
  have hhead := head_header hexport (head_takes_keyword hkeyword) post
  have hhead' := head_header (isModifier_export exported) (head_propsKeyword aliased name) t
  rw [List.nil_append, List.append_assoc, List.append_assoc, propsHeader, List.append_assoc] at htext
  have hletter : ∀ x ∈ ['e', 'i', 't'], (x == ' ' || x == '\t') = false := by decide
  obtain ⟨rfl, hdeclaration⟩ := append_inj_of_class hmargin' (fun x hx => by simpa using hmargin x hx)
    (fun x hx => hletter x (hhead x hx)) (fun x hx => hletter x (hhead' x hx)) htext
  have hfirst {keyword u : Text} (hkeyword : ∃ x ∈ ['i', 't'], ∃ u, keyword = x :: u) :
      ∀ x ∈ (keyword ++ u).head?, x ≠ 'e' ∧ x.isBlank = false := by
    obtain ⟨x, hx, k, rfl⟩ := hkeyword
    intro y hy
    cases hy
    revert x
    decide
  obtain ⟨rfl, hkeywords⟩ := hexport.append_inj (isModifier_export exported) (hfirst (head_takes_keyword hkeyword))
    (hfirst (head_propsKeyword aliased name)) hdeclaration
  obtain ⟨rfl, hgroup⟩ := eq_keyword hname hkeyword hkeywords
  exact ⟨rfl, hgroup⟩

/-- The header is listed if nothing in front of it reaches into it. -/
theorem exists_mem_findAll (hbefore : before.EndsLine) (hmargin : ∀ x ∈ margin, x = ' ' ∨ x = '\t')
    (hname : IsPropsName name)
    (hclear : ∀ m ∈ propsStart.findAll (before ++ (margin ++ (propsHeader exported aliased name ++ t))),
      m.start < byteSize before → m.stop ≤ byteSize before) :
    ∃ m ∈ propsStart.findAll (before ++ (margin ++ (propsHeader exported aliased name ++ t))),
      m.toCapture = ⟨byteSize before, margin ++ propsHeader exported aliased name⟩ ∧
        ((m.group? 1).or (m.group? 2)).isSome := by
  obtain ⟨g, htakes⟩ := exists_takes_propsStart hbefore hmargin hname exported aliased t
  obtain ⟨m, hm⟩ := Option.isSome_iff_exists.mp (isSome_matchAt_iff.mpr ⟨_, t, g, rfl, htakes⟩)
  rw [List.append_assoc] at hm
  obtain ⟨w, post, g', hof⟩ := matchAt_of hm
  obtain ⟨rfl, hgroup⟩ := eq_header hmargin hname hof.takes (List.append_cancel_left hof.text_eq).symm
  exact ⟨m, mem_findAll_of hm hclear, by rw [hof.eq], by rw [hof.eq]; exact hgroup⟩

theorem exists_propsHeader (exported aliased : Bool) (name : Text) :
    ∃ front, propsHeader exported aliased name = front ++ ['\x7b'] := by
  have hkeyword : ∃ front, propsKeyword aliased name = front ++ ['\x7b'] := by
    cases aliased with
    | false => exact ⟨"interface ".toList ++ (name ++ [' ']), by rw [List.append_assoc, List.append_assoc]; rfl⟩
    | true => exact ⟨"type ".toList ++ (name ++ " = ".toList), by rw [List.append_assoc, List.append_assoc]; rfl⟩
  obtain ⟨front, hfront⟩ := hkeyword
  exact ⟨_, by rw [propsHeader, hfront, ← List.append_assoc]⟩

/-- Behind the spaces in front of a header there is no other blank. -/
theorem indent_propsHeader (hmargin : ∀ x ∈ margin, x = ' ' ∨ x = '\t') (exported aliased : Bool) (name : Text) :
    indent (margin ++ propsHeader exported aliased name) = byteSize margin := by
  have hblank : ∀ x ∈ margin, x.isBlank = true := fun x hx => by
    rcases hmargin x hx with rfl | rfl <;> decide
  have hhead := head_header (isModifier_export exported) (head_propsKeyword aliased name) []
  rw [List.append_nil] at hhead
  have hletter : ∀ x ∈ ['e', 'i', 't'], x.isBlank = false := by decide
  rw [indent, propsHeader, takeWhile_append_of_head hblank fun x hx => hletter x (hhead x hx)]

/-! ## Blocks -/

/-- The type that starts with a match, with what is read off its body. -/
theorem exists_mem_propsBlocks {content front body : Text} {m : Match} (hm : m ∈ propsStart.findAll content)
    (hgroup : ((m.group? 1).or (m.group? 2)).isSome) (hcontent : content = front ++ '\x7b' :: (body ++ '\x7d' :: after))
    (hstop : m.stop = byteSize (front ++ ['\x7b'])) (hbody : Balanced '\x7b' '\x7d' body) :
    ∃ block ∈ propsBlocks content, block.start = m.inkStart ∧
      block.fields = memberFields (membersFrom [] 0 '\x00' body) := by
  obtain ⟨c, hc⟩ := Option.isSome_iff_exists.mp hgroup
  have hopen : m.stop - 1 = byteSize front := by
    rw [hstop, byteSize_append, byteSize_singleton]
    exact Nat.add_sub_cancel _ _
  have hclose : blockEnd content (m.stop - 1) = some (byteSize (front ++ '\x7b' :: body)) := by
    rw [hopen, hcontent]
    exact (blockEnd_eq_some_iff (show closer? '\x7b' = some '\x7d' from rfl) front _).mpr ⟨body, after, rfl, hbody, rfl⟩
  have hslice : slice content m.stop (byteSize (front ++ '\x7b' :: body)) = body := by
    have happend := slice_append (front ++ ['\x7b']) body ('\x7d' :: after)
    rwa [← byteSize_append, List.append_assoc, List.append_assoc, List.singleton_append,
      List.singleton_append, ← hcontent, ← hstop] at happend
  refine ⟨⟨c.text, m.inkStart, memberFields (membersFrom [] 0 '\x00' body)⟩,
    List.mem_filterMap.mpr ⟨m, hm, ?_⟩, rfl, rfl⟩
  rw [← filterMap_topLevelMembers]
  simp only [hc, hclose, hslice, Option.bind_eq_bind, Option.bind_some]
  rfl

/-- **The fields of a type are read off the parts of its body.** They are the properties that it declares if no type
has a line break and no comment a colon behind a separator. The header has single spaces between its words, where the
pattern takes any blanks. -/
theorem propsBlocks_parts (hbefore : before.EndsLine) (hmargin : ∀ x ∈ margin, x = ' ' ∨ x = '\t')
    (hname : IsPropsName name) (hparts : ∀ part ∈ parts, part.Fits) (hw : ∀ x ∈ w, x.isBlank = true) :
    let content := before ++ (margin ++ (propsHeader exported aliased name ++
      (parts.flatMap BodyPart.text ++ (w ++ '\x7d' :: after))))
    (∀ m ∈ propsStart.findAll content, m.start < byteSize before → m.stop ≤ byteSize before) →
      ∃ block ∈ propsBlocks content, block.start = byteSize (before ++ margin) ∧
        block.fields = parts.flatMap BodyPart.fields ∧
          ((∀ part ∈ parts, part.IsSimple) → block.fields = parts.flatMap BodyPart.declares) := by
  intro content hclear
  obtain ⟨header, hheader⟩ := exists_propsHeader exported aliased name
  have hblank : ∀ x ∈ w, x ≠ '\x7b' ∧ x ≠ '\x7d' := fun x hx =>
    ⟨beq_eq_false_iff_ne.mp (beq_of_class (by decide) (hw x hx)),
      beq_eq_false_iff_ne.mp (beq_of_class (by decide) (hw x hx))⟩
  have hbody : Balanced '\x7b' '\x7d' (parts.flatMap BodyPart.text ++ w) :=
    (balanced_flatMap fun part hpart => (hparts part hpart).balanced).append (balanced_of_forall hblank)
  obtain ⟨m, hm, hcapture, hgroup⟩ := exists_mem_findAll hbefore hmargin hname hclear
  have hcontent : content = before ++ (margin ++ header) ++ '\x7b' ::
      (parts.flatMap BodyPart.text ++ w ++ '\x7d' :: after) := by
    simp [content, hheader]
  have hstop : m.stop = byteSize (before ++ (margin ++ header) ++ ['\x7b']) := by
    rw [hcapture, hheader, Capture.stop, List.append_assoc, List.append_assoc]
    exact (byteSize_append _ _).symm
  have hstart : m.inkStart = byteSize (before ++ margin) := by
    rw [Match.inkStart, hcapture, indent_propsHeader hmargin, byteSize_append]
  obtain ⟨block, hblock, hblockStart, hfields⟩ := exists_mem_propsBlocks hm hgroup hcontent hstop hbody
  rw [memberFields_parts hparts hw] at hfields
  refine ⟨block, hblock, hblockStart.trans hstart, hfields, fun hsimple => ?_⟩
  rw [hfields]
  exact List.flatMap_congr fun part hpart => BodyPart.fields_eq_declares (hsimple part hpart)

/-- A comma in a comment and one in the type of a function do not end a member. -/
theorem propsBlocks_parts_row :
    let parts : List BodyPart :=
      [.comment "\n  ".toList " a row".toList [(',', " in a table".toList)],
        .member "  ".toList "id".toList false " string".toList ';',
        .member "\n  ".toList "onPick".toList true " (id: string, row: number) => void".toList ';']
    let before := "// rows\n".toList
    let content := before ++ ("export interface RowProps \x7b\n  // a row, in a table\n  id: string;".toList ++
      "\n  onPick?: (id: string, row: number) => void;\n\x7d\n".toList)
    (∀ part ∈ parts, part.Fits) ∧ (∀ part ∈ parts, part.IsSimple) ∧
      (∀ m ∈ propsStart.findAll content, m.start < byteSize before → m.stop ≤ byteSize before) ∧
        ∃ block ∈ propsBlocks content, block.start = byteSize before ∧ block.fields =
          [("id".toList, "string".toList), ("onPick".toList, "(id: string, row: number) => void".toList)] := by
  intro parts before content
  have hfunction : Bracketed false " (id: string, row: number) => void".toList := by
    have htext : " (id: string, row: number) => void".toList =
        [' '] ++ '(' :: ("id: string, row: number".toList ++ ')' :: (' ' :: '=' :: '>' :: " void".toList)) := by decide
    rw [htext]
    exact (bracketed_of_forall (by decide)).append
      (.nested (by decide) (by decide) (by decide) (bracketed_of_forall (by decide))
      (.other (by decide) (by decide) (.arrow (bracketed_of_forall (by decide)))))
  have hparts : ∀ part ∈ parts, part.Fits := by
    simp only [parts, List.forall_mem_cons]
    refine ⟨⟨by decide, ?_⟩, ⟨by decide, ⟨'i', ['d'], rfl, by decide, by decide⟩, by decide,
      bracketed_of_forall (by decide), balanced_of_forall (by decide), by decide⟩,
      ⟨by decide, ⟨'o', "nPick".toList, by decide, by decide, by decide⟩, by decide,
      hfunction, balanced_of_forall (by decide), by decide⟩, List.forall_mem_nil _⟩
    simp only [List.forall_mem_cons]
    exact ⟨⟨by decide, bracketed_of_forall (by decide), by decide⟩,
      ⟨by decide, bracketed_of_forall (by decide), by decide⟩, List.forall_mem_nil _⟩
  have hsimple : ∀ part ∈ parts, part.IsSimple := by decide
  have hclear : ∀ m ∈ propsStart.findAll content, m.start < byteSize before →
      m.stop ≤ byteSize before := by decide +kernel
  have hcontent : content = before ++ ([] ++ (propsHeader true false "RowProps".toList ++
      (parts.flatMap BodyPart.text ++ ("\n".toList ++ '\x7d' :: "\n".toList)))) := by decide
  have hname : IsPropsName "RowProps".toList := ⟨'R', "ow".toList, by decide, by decide, by decide⟩
  obtain ⟨block, hblock, hstart, _, hfields⟩ :=
    propsBlocks_parts (by decide) (List.forall_mem_nil _) hname hparts (by decide) (hcontent ▸ hclear)
  exact ⟨hparts, hsimple, hclear, block, hcontent ▸ hblock, hstart, hfields hsimple⟩

/-- A property whose type has a line break is lost, and what stands behind a comma in a comment is taken for one. -/
theorem propsBlocks_misreads :
    let parts : List BodyPart :=
      [.comment "\n  ".toList " sizes".toList [(',', " wide: yes".toList)],
        .member "  ".toList "id".toList false " string".toList ';',
        .member "\n  ".toList "box".toList false " \x7b\n    width: number;\n  \x7d".toList ';']
    (∀ part ∈ parts, part.Fits) ∧
      parts.flatMap BodyPart.declares =
        [("id".toList, "string".toList), ("box".toList, "\x7b\n    width: number;\n  \x7d".toList)] ∧
      (propsBlocks ("interface BoxProps \x7b".toList ++ (parts.flatMap BodyPart.text ++ "\n\x7d".toList))).map
        PropsBlock.fields =
        [[("wide".toList, "yes".toList), ("id".toList, "string".toList)]] := by
  intro parts
  have hbox : Bracketed false " \x7b\n    width: number;\n  \x7d".toList ∧
      Balanced '\x7b' '\x7d' " \x7b\n    width: number;\n  \x7d".toList := by
    have htext : " \x7b\n    width: number;\n  \x7d".toList = [' '] ++
        '\x7b' :: ("\n    width: number;\n  ".toList ++ ['\x7d']) := by
      decide
    rw [htext]
    exact ⟨(bracketed_of_forall (by decide)).append
      (.nested (by decide) (by decide) (by decide) (bracketed_of_forall (by decide)) .nil),
      (balanced_of_forall (by decide)).append (.nested (balanced_of_forall (by decide)) .nil)⟩
  refine ⟨?_, by decide, by decide +kernel⟩
  simp only [parts, List.forall_mem_cons]
  refine ⟨⟨by decide, ?_⟩, ⟨by decide, ⟨'i', ['d'], rfl, by decide, by decide⟩, by decide,
    bracketed_of_forall (by decide), balanced_of_forall (by decide), by decide⟩,
    ⟨by decide, ⟨'b', "ox".toList, by decide, by decide, by decide⟩, by decide,
    hbox.1, hbox.2, by decide⟩, List.forall_mem_nil _⟩
  simp only [List.forall_mem_cons]
  exact ⟨⟨by decide, bracketed_of_forall (by decide), by decide⟩,
    ⟨by decide, bracketed_of_forall (by decide), by decide⟩, List.forall_mem_nil _⟩

end Checkup
