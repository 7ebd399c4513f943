import Checkup.Proofs.LineBreak.Import

/-!
# Markup, properties and carriage returns

The members of the body of a type get their own carriage returns; one at the end of a member is dropped with the other
blanks there (`topLevelMembers_crlf`). So the types that list properties are at the same places, with the same fields
(`propsBlocks_crlf`).
-/

namespace Checkup

open Text (crlf crlf_nil crlf_cons crlf_feed crlf_append Moves MovesAt)
open Pattern

variable {content : Text}

/-! ## Properties -/

theorem membersFrom_return (member : Text) (depth : Int) (prev : Char) (t : Text) :
    membersFrom member depth prev ('\r' :: t) = membersFrom ('\r' :: member) depth '\r' t := by
  simp [membersFrom]

theorem membersFrom_feed (member : Text) (depth : Int) (prev : Char) (t : Text) :
    membersFrom member depth prev ('\n' :: t) =
      if depth ≤ 0 then member.reverse :: membersFrom [] depth '\n' t
        else membersFrom ('\n' :: member) depth '\n' t := by
  simp [membersFrom]

/-- At the carriage return of a break a member goes on, and the line feed behind it does what it did before. -/
theorem membersFrom_crlf {member member' : Text} (hmember : member'.reverse = crlf member.reverse) (depth : Int)
    (prev : Char) (t : Text) :
    (membersFrom member' depth prev (crlf t)).map Text.trim =
      ((membersFrom member depth prev t).map Text.trim).map crlf := by
  have hcons {member member' : Text} (h : member'.reverse = crlf member.reverse) {c : Char} (hc : c ≠ '\n') :
      (c :: member').reverse = crlf (c :: member).reverse := by
    rw [List.reverse_cons, List.reverse_cons, h, crlf_append, crlf_cons hc, crlf_nil]
  have hnil : ([] : Text).reverse = crlf ([] : Text).reverse := rfl
  induction t generalizing member member' depth prev with
  | nil => simp [membersFrom, hmember, Text.trim_crlf]
  | cons c t ih =>
    by_cases hc : c = '\n'
    · subst hc
      rw [crlf_feed, membersFrom_return, membersFrom_feed, membersFrom_feed]
      split
      · -- the return ends up at the end of the member, which is trimmed
        rw [List.map_cons, List.map_cons, List.map_cons, List.reverse_cons, hmember, Text.trim_concat (by decide),
          Text.trim_crlf, ih hnil]
      · exact ih (by simp [hmember]) depth '\n'
    · rw [crlf_cons hc]
      simp only [membersFrom]
      split
      · exact ih (hcons hmember hc) _ c
      · split
        · exact ih (hcons hmember hc) _ c
        · split
          · exact ih (hcons hmember hc) _ c
          · split
            · simp only [List.map_cons, hmember, Text.trim_crlf, ih hnil]
            · exact ih (hcons hmember hc) _ c

theorem topLevelMembers_crlf (body : Text) : topLevelMembers (crlf body) = (topLevelMembers body).map crlf := by
  have hkeep (m : Text) :
      (!(crlf m).isEmpty && ["//", "/*", "*"].all fun lead => !Text.startsWith lead.toList (crlf m)) =
      (!m.isEmpty && ["//", "/*", "*"].all fun lead => !Text.startsWith lead.toList m) := by
    have hempty : (crlf m).isEmpty = m.isEmpty := by
      rw [Bool.eq_iff_iff, List.isEmpty_iff, List.isEmpty_iff, Text.crlf_eq_nil]
    have hlead {s : String} (hs : Text.Breakless s.toList) := Text.startsWith_crlf hs m
    simp only [List.all_cons, List.all_nil, hempty]
    rw [hlead (s := "//") (by decide), hlead (s := "/*") (by decide), hlead (s := "*") (by decide)]
  rw [topLevelMembers, @membersFrom_crlf [] [] rfl, List.filter_map, topLevelMembers]
  exact congrArg _ (List.filter_congr fun m _ => hkeep m)

/-- Whether two types are of one name, at the same place of a text, with the same fields. -/
structure PropsBlock.Twin (t : Text) (b b' : PropsBlock) : Prop where
  name : b'.name = b.name
  start : Moves t b.start b'.start
  fields : b'.fields = b.fields

theorem propsBlocks_crlf (content : Text) :
    List.Forall₂ (PropsBlock.Twin content) (propsBlocks content) (propsBlocks (crlf content)) := by
  refine List.rel_filterMap (fun m m' hm => ?_) (findAll_crlf (p := propsStart) [] (by decide) content)
  have hlast := hm.last (c := '\x7b') ⟨fun x hx => eq_of_beq hx, fun x hx => eq_of_beq hx⟩ (by decide) (by decide)
  refine rel_bind (rel_or (hm.group_same (n := 1) (by simp) (by decide))
    (hm.group_same (n := 2) (by simp) (by decide))) fun name name' hname => ?_
  refine rel_bind (Text.blockEnd_crlf hlast.moves) fun close close' hclose => .some ⟨hname.1, hm.inkStart, ?_⟩
  obtain ⟨closer, _, _, hclose⟩ := hclose
  dsimp only
  rw [hm.stop.slice_eq hclose.moves, topLevelMembers_crlf, List.filterMap_map]
  refine List.filterMap_congr fun member _ => ?_
  refine bind_eq_of_rel (find_crlf (p := propsField) [] (by decide) member) fun f f' hf => ?_
  refine bind_eq_of_rel (hf.group_same (n := 1) (by simp) (by decide)) fun c c' hc => ?_
  refine bind_eq_of_rel (hf.group_same (n := 2) (by simp) (by decide)) fun d d' hd => ?_
  rw [hc.1, hd.1]

theorem booleanProps_ignoresReturns (tables : RuleTables) : (booleanProps tables).IgnoresReturns := by
  refine Rule.ignoresReturns_of rfl rfl fun path content hc => ?_
  refine filterMap_eq_of_forall₂ (propsBlocks_crlf content) fun b b' hb => ?_
  simp only [hb.name, hb.fields, Spot.atOffset_crlf hb.start]

theorem tooManyProps_ignoresReturns : tooManyProps.IgnoresReturns := by
  refine Rule.ignoresReturns_of rfl (by decide) fun path content hc => ?_
  refine map_eq_of_forall₂ (List.rel_filter (fun b b' hb => ?_) (propsBlocks_crlf content)) fun b b' hb => ?_
  · show decide (maxProps < b.fields.length) = true ↔ decide (maxProps < b'.fields.length) = true
    rw [hb.fields]
  · simp only [hb.name, hb.fields, Spot.atOffset_crlf hb.start]

/-! ## Markup -/

theorem numericConditional_ignoresReturns : numericConditional.IgnoresReturns := by
  refine Rule.ignoresReturns_of rfl (by decide) fun path content hc => ?_
  refine filterMap_eq_of_forall₂ (findAll_crlf (p := conditionalMarkup) [] (by decide) content)
    fun m m' hm => ?_
  refine bind_eq_of_rel (hm.group_same (n := 1) (by simp) (by decide)) fun c c' hc => ?_
  simp only [hc.1, Spot.atOffset_crlf hm.start]

theorem rawAnchor_ignoresReturns : rawAnchor.IgnoresReturns := by
  refine Rule.ignoresReturns_of rfl (by decide) fun path content hc => ?_
  exact map_eq_of_forall₂ (findAll_crlf (p := internalAnchor) [] (by decide) content) fun m m' hm =>
    Spot.atOffset_crlf hm.start _ _

theorem structuredClone_ignoresReturns : structuredClone.IgnoresReturns := by
  refine Rule.ignoresReturns_of rfl (by decide) fun path content hc => ?_
  exact map_eq_of_forall₂ (findAll_crlf (p := deepClone) [] (by decide) content) fun m m' hm =>
    Spot.atOffset_crlf hm.start _ _

/-- No other character than the line feed is one in lower case. -/
theorem lowerChar_ne {c : Char} (hc : c ≠ '\n') : Text.lowerChar c ≠ '\n' := by
  unfold Text.lowerChar
  split
  · decide
  · unfold Char.toLower
    split
    · rename_i h
      intro e
      have hval : c.val + ('a'.val - 'A'.val) = '\n'.val := congrArg Char.val e
      grind
    · exact hc

theorem toLower_crlf (t : Text) : Text.toLower (crlf t) = crlf (Text.toLower t) := by
  induction t with
  | nil => rfl
  | cons c t ih =>
    by_cases hc : c = '\n'
    · subst hc
      exact congrArg (fun u => '\r' :: '\n' :: u) ih
    · rw [crlf_cons hc, Text.toLower, Text.toLower, List.map_cons, List.map_cons, crlf_cons (lowerChar_ne hc)]
      exact congrArg _ ih

theorem cleansMarkup_crlf (content : Text) : cleansMarkup (crlf content) = cleansMarkup content := by
  have hhas {s : String} (hs : Text.Breakless s.toList) (t : Text) := Text.has_crlf hs t
  rw [cleansMarkup, toLower_crlf, hhas (s := "DOMPurify") (by decide), hhas (s := "sanitize") (by decide),
    hhas (s := "JSON.stringify(") (by decide), cleansMarkup]

theorem dangerousHtml_ignoresReturns : dangerousHtml.IgnoresReturns := by
  refine Rule.ignoresReturns_of rfl (by decide) fun path content hc => ?_
  simp only [cleansMarkup_crlf]
  split
  · rfl
  · exact map_eq_of_forall₂ (Text.indexes_crlf (by decide) (by decide) content) fun n n' hn => Spot.atOffset_crlf hn _ _

end Checkup
