import Checkup.Proofs.Pattern.Head
import Checkup.Source.Import

/-!
# What the match of an import takes

A match of `importPattern` is what leads up to a specifier, a quotation mark, the specifier and a quotation mark
(`importPattern_takes_iff`).

* `importLead_takes`: a lead is at the start of a line, with one of the words `import` and `export` between blanks, or
  it is one of the words `import` and `require` with nothing but blanks and brackets behind it.
* `matchAt_importPattern`: where a lead stands in front of a specifier in quotation marks, there is a match, and it is
  of that specifier. For that no quotation mark and no brace that stays open may be in the lead.
* `matchAt_eq_none_of_head`, `exists_blanks_of_statement`: where no match starts, and where it does if it starts in
  front of a line.
-/

namespace Checkup

open Pattern
open Cursor (behind)

variable {pre w post b lead rest s : Text} {q : Char} {g g' : Marks} {m : Match}

/-! ## Quotation marks and brackets -/

/-- Either quotation mark. -/
def isQuote (c : Char) : Bool := c == '\"' || c == '\''

theorem utf8Size_of_isQuote (hq : isQuote q = true) : q.utf8Size = 1 := by
  rcases Bool.or_eq_true_iff.mp hq with h | h <;> (rw [eq_of_beq h]; rfl)

/-- Whether no quotation mark is in the text. -/
def Quoteless (t : Text) : Prop := ∀ x ∈ t, isQuote x = false

theorem Quoteless.append (hs : Quoteless s) (hw : Quoteless w) : Quoteless (s ++ w) :=
  List.forall_mem_append.mpr ⟨hs, hw⟩

theorem quoteless_of_not_mem {cs : List Char} (h : ∀ x ∈ w, x ∉ '\'' :: '\"' :: cs) : Quoteless w := by
  intro x hx
  have hnot := h x hx
  simp only [List.mem_cons, not_or] at hnot
  simp [isQuote, hnot.1, hnot.2.1]

theorem quoteless_of_isBlank (h : ∀ x ∈ w, x.isBlank = true) : Quoteless w := by
  have hmarks : ∀ x ∈ w, x ∉ ['\'', '\"'] := fun x hx => not_mem_of_shuns (p := Char.isBlank) (by decide) (h x hx)
  exact quoteless_of_not_mem hmarks

/-- There is one way to read a text up to its first quotation mark. -/
theorem Quoteless.append_inj {q' : Char} {rest' : Text} (hs : Quoteless s) (hw : Quoteless w) (hq : isQuote q = true)
    (hq' : isQuote q' = true) (h : s ++ q :: rest = w ++ q' :: rest') : s = w ∧ q = q' ∧ rest = rest' := by
  have hclass {t : Text} (ht : Quoteless t) : ∀ x ∈ t, (!isQuote x) = true := fun x hx => by rw [ht x hx]; rfl
  have hhead {c : Char} (hc : isQuote c = true) (t : Text) : ∀ x ∈ (c :: t).head?, (!isQuote x) = false := by
    rintro _ ⟨⟩
    rw [hc]
    rfl
  obtain ⟨rfl, htail⟩ := Text.append_inj_of_class (hclass hs) (hclass hw) (hhead hq rest) (hhead hq' rest') h
  obtain ⟨rfl, rfl⟩ := List.cons.inj htail
  exact ⟨rfl, rfl, rfl⟩

/-- A text with a quotation mark has a first one. -/
theorem exists_first_quote (h : ¬ Quoteless w) : ∃ u c v, w = u ++ c :: v ∧ Quoteless u ∧ isQuote c = true := by
  induction w with
  | nil => exact absurd (List.forall_mem_nil _) h
  | cons x w ih =>
    cases hx : isQuote x with
    | true => exact ⟨[], x, w, rfl, List.forall_mem_nil _, hx⟩
    | false =>
      obtain ⟨u, c, v, rfl, hu, hc⟩ := ih fun hw => h (List.forall_mem_cons.mpr ⟨hx, hw⟩)
      exact ⟨x :: u, c, v, rfl, List.forall_mem_cons.mpr ⟨hx, hu⟩, hc⟩

/-- Whether a closing brace is behind every opening one. -/
def BracesClosed (t : Text) : Prop := ∀ a c, t = a ++ '\x7b' :: c → '\x7d' ∈ c

theorem bracesClosed_of_not_mem (h : '\x7b' ∉ w) : BracesClosed w := by
  rintro a c rfl
  exact absurd (by simp) h

/-- One pair of braces. -/
theorem bracesClosed_pair {a c : Text} (ha : '\x7b' ∉ a) (hc : '\x7b' ∉ c) (hclose : '\x7d' ∈ c) :
    BracesClosed (a ++ '\x7b' :: c) := by
  intro a' c' h
  obtain ⟨-, -, rfl⟩ := (List.append_cons_inj_of_notMem ha hc).mp h
  exact hclose

/-! ## Leads -/

/-- Whether a line starts behind the text. -/
def AtLineStart (pre : Text) : Prop := pre.getLast?.all (· == '\n') = true

/-- What leads up to the specifier of an import statement. -/
abbrev importStatement : Pattern :=
  seqAll [lineStart, blanks, lit "import", gap, opt (lit "type" ++ gap),
    opt (few (butNot ['\'', '\"', ';']) ++ blanks ++ lit "from" ++ blanks)]

/-- What leads up to the specifier of a re-export. -/
abbrev exportStatement : Pattern :=
  seqAll [lineStart, blanks, lit "export", gap, opt (lit "type" ++ gap),
    alt (lit "*") (enclosed '\x7b' '\x7d'), blanks,
    opt (lit "as" ++ gap ++ many1 Char.isName ++ blanks), lit "from", blanks]

/-- What leads up to the specifier in a call. -/
abbrev moduleCall (word : String) : Pattern := seqAll [wordBoundary, lit word, blanks, lit "(", blanks]

theorem importLead_eq :
    importLead = anyOf [importStatement, exportStatement, moduleCall "import", moduleCall "require"] := rfl

/-- What patterns take that start with a word in front of which only blanks stand in its line. -/
theorem statement_takes_iff {word : String} {p : Pattern} {ps : List Pattern} :
    (seqAll (lineStart :: blanks :: lit word :: gap :: p :: ps)).Takes pre w post g g' ↔
      ∃ b space r, w = b ++ (word.toList ++ (space ++ r)) ∧ AtLineStart pre ∧ (∀ x ∈ b, x.isBlank = true) ∧
        (space ≠ [] ∧ ∀ x ∈ space, x.isBlank = true) ∧
        (seqAll (p :: ps)).Takes (pre ++ b ++ word.toList ++ space) r post g g' := by
  constructor
  · rintro ⟨_, _, _, rfl, ⟨rfl, rfl, hline⟩, b, _, _, rfl, ⟨hb, rfl⟩, _, _, _, rfl, hword, space, r, _, rfl,
      hgap, hr⟩
    obtain ⟨rfl, rfl⟩ := literal_takes_iff.mp hword
    obtain ⟨hspace, rfl⟩ := gap_takes_iff.mp hgap
    rw [List.append_nil] at hr
    exact ⟨b, space, r, rfl, hline, hb, hspace, hr⟩
  · rintro ⟨b, space, r, rfl, hline, hb, hspace, hr⟩
    refine ⟨[], _, g, rfl, ⟨rfl, rfl, hline⟩, b, _, g, rfl, ⟨hb, rfl⟩, word.toList, _, g, rfl, takes_literal _ _ _ _,
      space, r, g, rfl, gap_takes_iff.mpr ⟨hspace, rfl⟩, ?_⟩
    rwa [List.append_nil]

theorem moduleCall_takes_iff {word : String} : (moduleCall word).Takes pre w post g g' ↔
    ∃ space space', w = word.toList ++ (space ++ '(' :: space') ∧ (behind pre (w ++ post)).atWordBoundary = true ∧
      (∀ x ∈ space, x.isBlank = true) ∧ (∀ x ∈ space', x.isBlank = true) ∧ g' = g := by
  constructor
  · rintro ⟨_, _, _, rfl, ⟨rfl, rfl, hstart⟩, _, _, _, rfl, hword, space, _, _, rfl, ⟨hspace, rfl⟩, _, space', _, rfl,
      hbracket, hspace', rfl⟩
    obtain ⟨rfl, rfl⟩ := literal_takes_iff.mp hword
    obtain ⟨rfl, rfl⟩ := literal_takes_iff.mp hbracket
    exact ⟨space, space', rfl, hstart, hspace, hspace', rfl⟩
  · rintro ⟨space, space', rfl, hstart, hspace, hspace', rfl⟩
    exact ⟨[], _, _, rfl, ⟨rfl, rfl, hstart⟩, word.toList, _, _, rfl, takes_literal _ _ _ _, space, _, _, rfl,
      ⟨hspace, rfl⟩, ['('], space', _, rfl, takes_literal ['('] _ _ _, hspace', rfl⟩

/-- What a re-export names: everything, or what stands in braces. -/
def IsExported (core : Text) : Prop := core = ['*'] ∨ ∃ x, '\x7d' ∉ x ∧ core = '\x7b' :: (x ++ ['\x7d'])

theorem exported_takes_iff {core : Text} :
    (alt (lit "*") (enclosed '\x7b' '\x7d')).Takes pre core post g g' ↔ IsExported core ∧ g' = g := by
  constructor
  · rintro (hstar | ⟨_, _, _, rfl, ⟨_, x, _, rfl, ⟨⟨o, rfl, ho⟩, rfl⟩, hx, rfl⟩, ⟨c, rfl, hc⟩, rfl⟩)
    · obtain ⟨rfl, rfl⟩ := literal_takes_iff.mp hstar
      exact ⟨Or.inl rfl, rfl⟩
    · obtain rfl := eq_of_beq ho
      obtain rfl := eq_of_beq hc
      exact ⟨Or.inr ⟨x, fun hmem => by simpa using hx _ hmem, by simp⟩, rfl⟩
  · rintro ⟨rfl | ⟨x, hx, rfl⟩, rfl⟩
    · exact Or.inl (takes_literal ['*'] _ _ _)
    · have hinside : ∀ y ∈ x, (y != '\x7d') = true := fun y hy => bne_iff_ne.mpr fun h => hx (h ▸ hy)
      exact Or.inr ⟨'\x7b' :: x, ['\x7d'], _, rfl, ⟨['\x7b'], x, _, rfl, ⟨⟨_, rfl, rfl⟩, rfl⟩, hinside, rfl⟩,
        ⟨_, rfl, rfl⟩, rfl⟩

/-- A blank or an opening parenthesis. -/
def isOpening (c : Char) : Bool := c.isBlank || c == '('

theorem isOpening_of_isQuote (hq : isQuote q = true) : isOpening q = false := by
  rcases Bool.or_eq_true_iff.mp hq with h | h
  · rw [eq_of_beq h]; decide
  · rw [eq_of_beq h]; decide

/-- What a lead starts with. -/
theorem importLead_takes (h : importLead.Takes pre lead post g g') :
    (AtLineStart pre ∧ ∃ word ∈ ["import", "export"], ∃ b space r, lead = b ++ (word.toList ++ (space ++ r)) ∧
      (∀ x ∈ b, x.isBlank = true) ∧ space ≠ [] ∧ ∀ x ∈ space, x.isBlank = true) ∨
    ∃ word ∈ ["import", "require"], ∃ r, lead = word.toList ++ r ∧ ∀ x ∈ r, isOpening x = true := by
  have hcall {word : String} (h : (moduleCall word).Takes pre lead post g g') :
      ∃ r, lead = word.toList ++ r ∧ ∀ x ∈ r, isOpening x = true := by
    obtain ⟨space, space', rfl, -, hspace, hspace', -⟩ := moduleCall_takes_iff.mp h
    refine ⟨_, rfl, List.forall_mem_append.mpr ⟨fun x hx => ?_, List.forall_mem_cons.mpr ⟨rfl, fun x hx => ?_⟩⟩⟩
    · rw [isOpening, hspace x hx, Bool.true_or]
    · rw [isOpening, hspace' x hx, Bool.true_or]
  rw [importLead_eq] at h
  rcases h with h | h | h | h
  · obtain ⟨b, space, r, rfl, hline, hb, hspace, -⟩ := statement_takes_iff.mp h
    exact Or.inl ⟨hline, "import", by simp, b, space, r, rfl, hb, hspace⟩
  · obtain ⟨b, space, r, rfl, hline, hb, hspace, -⟩ := statement_takes_iff.mp h
    exact Or.inl ⟨hline, "export", by simp, b, space, r, rfl, hb, hspace⟩
  · exact Or.inr ⟨"import", by simp, hcall h⟩
  · exact Or.inr ⟨"require", by simp, hcall h⟩

theorem quoteless_takes {p : Pattern} (hp : p.within ['\'', '\"'] = true) (h : p.Takes pre w post g g') : Quoteless w :=
  quoteless_of_not_mem (within_takes hp h)

/-- The braces in front of a specifier hold no quotation mark if they are closed in front of the first one. -/
theorem quoteless_of_braces {a x r s' : Text} (ha : Quoteless a) (hr : Quoteless r) (hx : '\x7d' ∉ x) (hs : Quoteless s)
    (hbraces : BracesClosed s) (hq : isQuote q = true) (h : a ++ ('\x7b' :: x ++ '\x7d' :: r) ++ post = s ++ q :: s') :
    Quoteless (a ++ ('\x7b' :: x ++ '\x7d' :: r)) := by
  have hinside : Quoteless x := by
    by_contra hquote
    obtain ⟨u, c, v, rfl, hu, hc⟩ := exists_first_quote hquote
    have hfront : Quoteless (a ++ '\x7b' :: u) := ha.append (List.forall_mem_cons.mpr ⟨rfl, hu⟩)
    have hsplit : (a ++ '\x7b' :: u) ++ c :: (v ++ '\x7d' :: (r ++ post)) = s ++ q :: s' := by rw [← h]; simp
    obtain ⟨rfl, -, -⟩ := hfront.append_inj hs hc hq hsplit
    exact hx (List.mem_append_left _ (hbraces a u rfl))
  exact ha.append (.append (List.forall_mem_cons.mpr ⟨rfl, hinside⟩) (List.forall_mem_cons.mpr ⟨rfl, hr⟩))

/-- A lead holds no quotation mark if there is none in front of the specifier, nor a brace that stays open. -/
theorem importLead_quoteless {s' : Text} (h : importLead.Takes pre lead post g g') (hs : Quoteless s)
    (hbraces : BracesClosed s) (hq : isQuote q = true) (hsplit : lead ++ post = s ++ q :: s') : Quoteless lead := by
  rw [importLead_eq] at h
  rcases h with h | h | h | h
  · exact quoteless_takes (by decide +kernel) h
  · -- only the braces of a re-export may take a quotation mark
    obtain ⟨_, _, _, rfl, hline, _, _, _, rfl, hblank, _, _, _, rfl, hexport, _, _, _, rfl, hgap, _, _, _, rfl, htype,
      core, tail, _, rfl, hcore, htail⟩ := h
    have hfront := (quoteless_takes (by decide +kernel) hline).append <|
      (quoteless_takes (by decide +kernel) hblank).append <| (quoteless_takes (by decide +kernel) hexport).append <|
      (quoteless_takes (by decide +kernel) hgap).append (quoteless_takes (by decide +kernel) htype)
    have hrear : Quoteless tail := quoteless_takes (by decide +kernel) htail
    rcases (exported_takes_iff.mp hcore).1 with rfl | ⟨x, hinside, rfl⟩
    · have hmiddle : Quoteless ['*'] := List.forall_mem_singleton.mpr rfl
      simpa only [List.append_assoc] using hfront.append (hmiddle.append hrear)
    · have hall := quoteless_of_braces hfront hrear hinside hs hbraces hq (by simpa using hsplit)
      simpa using hall
  · exact quoteless_takes (by decide +kernel) h
  · exact quoteless_takes (by decide +kernel) h

/-! ## Matches -/

theorem butNot_iff {cs : List Char} {x : Char} : butNot cs x = true ↔ x ∉ cs := by simp [butNot]

/-- The group of the specifier. -/
def specifierMark (pre s post : Text) : Marks := [(1, behind pre (s ++ post), behind (pre ++ s) post)]

theorem importPattern_takes_iff : importPattern.Takes pre w post [] g ↔
    ∃ lead q s q', w = lead ++ q :: (s ++ [q']) ∧ importLead.Takes pre lead (q :: (s ++ q' :: post)) [] [] ∧
      isQuote q = true ∧ isQuote q' = true ∧ s ≠ [] ∧ (∀ x ∈ s, x ∉ ['\'', '\"', '\n']) ∧
      g = specifierMark (pre ++ lead ++ [q]) s (q' :: post) := by
  constructor
  · rintro ⟨_, _, _, rfl, ⟨_, _, _, rfl, ⟨lead, _, _, rfl, hlead, ⟨q, rfl, hq⟩, rfl⟩, _,
      ⟨_, s, _, rfl, ⟨⟨c, rfl, hc⟩, rfl⟩, hs, rfl⟩, rfl⟩, ⟨q', rfl, hq'⟩, rfl⟩
    obtain rfl := groupless_takes (by decide +kernel) hlead
    have hall : ∀ x ∈ c :: s, butNot ['\'', '\"', '\n'] x = true := List.forall_mem_cons.mpr ⟨hc, hs⟩
    refine ⟨lead, q, c :: s, q', by simp, by simpa using hlead, hq, hq', List.cons_ne_nil c s,
      fun x hx => butNot_iff.mp (hall x hx), ?_⟩
    simp [specifierMark]
  · rintro ⟨lead, q, s, q', rfl, hlead, hq, hq', hne, hs, rfl⟩
    obtain ⟨c, s, rfl⟩ := List.exists_cons_of_ne_nil hne
    obtain ⟨hc, hs⟩ := List.forall_mem_cons.mp fun x hx => butNot_iff.mpr (hs x hx)
    refine ⟨lead ++ [q] ++ c :: s, [q'], _, by simp,
      ⟨lead ++ [q], c :: s, [], rfl, ⟨lead, [q], [], rfl, ?_, ⟨q, rfl, hq⟩, rfl⟩, _,
        ⟨[c], s, _, rfl, ⟨⟨c, rfl, hc⟩, rfl⟩, hs, rfl⟩, rfl⟩, ⟨q', rfl, hq'⟩, ?_⟩
    · simpa using hlead
    · simp [specifierMark]

/-- What a match of an import is made of. -/
theorem exists_of_match_importPattern {t : Text} (hof : m.Of importPattern t pre w post g) :
    ∃ lead q s q', w = lead ++ q :: (s ++ [q']) ∧ importLead.Takes pre lead (q :: (s ++ q' :: post)) [] [] ∧
      isQuote q = true ∧ isQuote q' = true ∧ s ≠ [] ∧ (∀ x ∈ s, x ∉ ['\'', '\"', '\n']) ∧
      m.group? 1 = some ⟨Text.byteSize (pre ++ lead ++ [q]), s⟩ := by
  obtain ⟨lead, q, s, q', rfl, hlead, hq, hq', hne, hs, rfl⟩ := importPattern_takes_iff.mp hof.takes
  refine ⟨lead, q, s, q', rfl, hlead, hq, hq', hne, hs, ?_⟩
  rw [hof.eq, Match.group?, specifierMark, captures, List.map_cons, List.lookup_cons, beq_self_eq_true,
    Capture.between_behind]

theorem exists_of_matchAt_importPattern (hm : importPattern.matchAt (behind pre rest) = some m) :
    ∃ lead q s q' post, rest = lead ++ q :: (s ++ q' :: post) ∧
      importLead.Takes pre lead (q :: (s ++ q' :: post)) [] [] ∧ isQuote q = true ∧ isQuote q' = true ∧ Quoteless s ∧
      m.group? 1 = some ⟨Text.byteSize (pre ++ lead ++ [q]), s⟩ ∧
      m.stop = Text.byteSize (pre ++ (lead ++ q :: (s ++ [q']))) := by
  obtain ⟨w, post, g, hof⟩ := matchAt_of hm
  obtain ⟨lead, q, s, q', rfl, hlead, hq, hq', -, hs, hgroup⟩ := exists_of_match_importPattern hof
  refine ⟨lead, q, s, q', post, ?_, hlead, hq, hq', quoteless_of_not_mem hs, hgroup, hof.stop_eq⟩
  simpa using List.append_cancel_left hof.text_eq

/-- Where a lead that is read in one way stands in front of a specifier, the match is of that specifier. -/
theorem matchAt_of_lead {q' : Char} (hlead : importLead.Takes pre lead (q :: (s ++ q' :: post)) [] [])
    (hunique : ∀ lead' p v, importLead.Takes pre lead' (p :: v) [] [] → isQuote p = true →
      lead' ++ p :: v = lead ++ q :: (s ++ q' :: post) → lead' = lead)
    (hq : isQuote q = true) (hq' : isQuote q' = true) (hne : s ≠ []) (hs : ∀ x ∈ s, x ∉ ['\'', '\"', '\n']) :
    ∃ m, importPattern.matchAt (behind pre (lead ++ q :: (s ++ [q']) ++ post)) = some m ∧
      m.group? 1 = some ⟨Text.byteSize (pre ++ lead ++ [q]), s⟩ ∧
      m.stop = Text.byteSize (pre ++ (lead ++ q :: (s ++ [q']))) := by
  have htakes := importPattern_takes_iff.mpr ⟨lead, q, s, q', rfl, hlead, hq, hq', hne, hs, rfl⟩
  obtain ⟨m, hm⟩ := Option.isSome_iff_exists.mp (isSome_matchAt_iff.mpr ⟨_, post, _, rfl, htakes⟩)
  obtain ⟨lead', p, s', p', post', hsplit, hlead', hp, hp', hs', hgroup, hstop⟩ := exists_of_matchAt_importPattern hm
  -- the lead of the match ends at the same quotation mark, and so does its specifier
  have hsplit' : lead' ++ p :: (s' ++ p' :: post') = lead ++ q :: (s ++ q' :: post) := by rw [← hsplit]; simp
  obtain rfl := hunique _ _ _ hlead' hp hsplit'
  obtain ⟨rfl, hrest⟩ := List.cons.inj (List.append_cancel_left hsplit')
  obtain ⟨rfl, rfl, -⟩ := hs'.append_inj (quoteless_of_not_mem hs) hp' hq' hrest
  exact ⟨m, hm, hgroup, hstop⟩

/-- **Where a lead stands in front of a specifier, the match is of that specifier.** -/
theorem matchAt_importPattern {q' : Char} (hlead : importLead.Takes pre lead (q :: (s ++ q' :: post)) [] [])
    (hquoteless : Quoteless lead) (hbraces : BracesClosed lead) (hq : isQuote q = true) (hq' : isQuote q' = true)
    (hne : s ≠ []) (hs : ∀ x ∈ s, x ∉ ['\'', '\"', '\n']) :
    ∃ m, importPattern.matchAt (behind pre (lead ++ q :: (s ++ [q']) ++ post)) = some m ∧
      m.group? 1 = some ⟨Text.byteSize (pre ++ lead ++ [q]), s⟩ ∧
      m.stop = Text.byteSize (pre ++ (lead ++ q :: (s ++ [q']))) := by
  refine matchAt_of_lead hlead (fun lead' p v hlead' hp hsplit => ?_) hq hq' hne hs
  have hquoteless' := importLead_quoteless hlead' hquoteless hbraces hq hsplit
  exact (hquoteless'.append_inj hquoteless hp hq hsplit).1

/-! ## Leads in front of a specifier -/

theorem importStatement_takes {clause : Text} (hpre : AtLineStart pre) (hb : ∀ x ∈ b, x.isBlank = true)
    (hclause : ∀ x ∈ clause, x ∉ ['\'', '\"', ';']) :
    importLead.Takes pre (b ++ ("import ".toList ++ (clause ++ " from ".toList))) post g g := by
  have hall : ∀ x ∈ clause, butNot ['\'', '\"', ';'] x = true := fun x hx => butNot_iff.mpr (hclause x hx)
  refine Or.inl (statement_takes_iff.mpr ⟨b, [' '], clause ++ " from ".toList, rfl, hpre, hb, ⟨by simp, by decide⟩, ?_⟩)
  exact ⟨[], _, g, rfl, Or.inr ⟨rfl, rfl⟩, Or.inl ⟨clause ++ " from".toList, [' '], g, by simp,
    ⟨clause ++ [' '], "from".toList, g, by simp, ⟨clause, [' '], g, rfl, ⟨hall, rfl⟩, by decide, rfl⟩,
      takes_literal _ _ _ _⟩, by decide, rfl⟩⟩

theorem importStatement_takes_bare (hpre : AtLineStart pre) (hb : ∀ x ∈ b, x.isBlank = true) :
    importLead.Takes pre (b ++ "import ".toList) post g g := by
  refine Or.inl (statement_takes_iff.mpr ⟨b, [' '], [], rfl, hpre, hb, ⟨by simp, by decide⟩, ?_⟩)
  exact ⟨[], _, g, rfl, Or.inr ⟨rfl, rfl⟩, Or.inr ⟨rfl, rfl⟩⟩

theorem exportStatement_takes {core renamed : Text} (hpre : AtLineStart pre) (hb : ∀ x ∈ b, x.isBlank = true)
    (hcore : IsExported core)
    (hrenamed : renamed = [] ∨
      ∃ name, name ≠ [] ∧ (∀ x ∈ name, x.isName = true) ∧ renamed = "as ".toList ++ (name ++ [' '])) :
    importLead.Takes pre (b ++ ("export ".toList ++ (core ++ (' ' :: (renamed ++ "from ".toList))))) post g g := by
  have hrenamed {pre post : Text} :
      (opt (lit "as" ++ gap ++ many1 Char.isName ++ blanks)).Takes pre renamed post g g := by
    rcases hrenamed with rfl | ⟨name, hne, hname, rfl⟩
    · exact Or.inr ⟨rfl, rfl⟩
    · obtain ⟨c, name, rfl⟩ := List.exists_cons_of_ne_nil hne
      obtain ⟨hc, hname⟩ := List.forall_mem_cons.mp hname
      have hspace {pre post : Text} : gap.Takes pre [' '] post g g := gap_takes_iff.mpr ⟨⟨by simp, by decide⟩, rfl⟩
      exact Or.inl ⟨"as ".toList ++ c :: name, [' '], g, rfl, ⟨"as ".toList, c :: name, g, rfl,
        ⟨"as".toList, [' '], g, rfl, takes_literal _ _ _ _, hspace⟩, [c], name, g, rfl, ⟨⟨c, rfl, hc⟩, rfl⟩,
        hname, rfl⟩, by decide, rfl⟩
  refine Or.inr (Or.inl (statement_takes_iff.mpr ⟨b, [' '], _, rfl, hpre, hb, ⟨by simp, by decide⟩, ?_⟩))
  exact ⟨[], _, g, rfl, Or.inr ⟨rfl, rfl⟩, core, _, g, rfl, exported_takes_iff.mpr ⟨hcore, rfl⟩, [' '], _, g, rfl,
    ⟨by decide, rfl⟩, renamed, _, g, rfl, hrenamed, "from".toList, [' '], g, rfl, takes_literal _ _ _ _, by decide, rfl⟩

theorem moduleCall_takes {word : String} (hpre : pre.getLast?.any Char.isWord = false)
    (hword : word ∈ ["import", "require"]) : importLead.Takes pre (word.toList ++ ['(']) post g g := by
  have hstart : (behind pre (word.toList ++ ['('] ++ post)).atWordBoundary = true := by
    rcases List.mem_pair.mp hword with rfl | rfl
    · exact (atWordBoundary_before (x := 'i') (by decide) _ _).mpr hpre
    · exact (atWordBoundary_before (x := 'r') (by decide) _ _).mpr hpre
  have htakes : (moduleCall word).Takes pre (word.toList ++ ['(']) post g g :=
    moduleCall_takes_iff.mpr ⟨[], [], rfl, hstart, List.forall_mem_nil _, List.forall_mem_nil _, rfl⟩
  rcases List.mem_pair.mp hword with rfl | rfl
  · exact Or.inr (Or.inr (Or.inl htakes))
  · exact Or.inr (Or.inr (Or.inr htakes))

/-! ## Stretches without a match -/

theorem atLineStart_nil : AtLineStart [] := rfl

theorem atLineStart_concat (pre : Text) : AtLineStart (pre ++ ['\n']) := by simp [AtLineStart]

theorem not_atLineStart_append {t : Text} (hne : t ≠ []) (ht : '\n' ∉ t) (pre : Text) : ¬ AtLineStart (pre ++ t) := by
  intro h
  rw [AtLineStart, List.getLast?_append_of_ne_nil _ hne, List.getLast?_eq_some_getLast hne] at h
  exact ht (eq_of_beq h ▸ List.getLast_mem hne)

/-- What stands in front of the first place of a character is in front of it in each way to read the text. -/
theorem exists_append_of_not_mem {x : Char} {c R z R' : Text} (hx : x ∉ c) (h : c ++ R = z ++ x :: R') :
    ∃ z', z = c ++ z' ∧ R = z' ++ x :: R' := by
  rcases List.append_eq_append_iff.mp h with ⟨z', rfl, hz⟩ | ⟨d, rfl, hd⟩
  · exact ⟨z', rfl, hz⟩
  · cases d with
    | nil => exact ⟨[], by simp, by simpa using hd.symm⟩
    | cons y d =>
      obtain ⟨rfl, -⟩ := List.cons.inj hd
      exact absurd (by simp) hx

theorem Quoteless.not_mem (hs : Quoteless s) (hq : isQuote q = true) : q ∉ s := fun hmem => by simp [hs q hmem] at hq

theorem exists_append_of_quoteless {c R R' : Text} (hc : Quoteless c) (hq : isQuote q = true)
    (h : c ++ R = lead ++ q :: R') : ∃ z, lead = c ++ z ∧ R = z ++ q :: R' := exists_append_of_not_mem (hc.not_mem hq) h

/-- Within a line only a call can start a match. -/
theorem matchAt_eq_none_of_head (hpre : ¬ AtLineStart pre) (hrest : ∀ x ∈ rest.head?, x ≠ 'i' ∧ x ≠ 'r') :
    importPattern.matchAt (behind pre rest) = none := by
  refine Option.eq_none_iff_forall_ne_some.mpr fun m hm => ?_
  obtain ⟨lead, q, s, q', post, rfl, hlead, -⟩ := exists_of_matchAt_importPattern hm
  rcases importLead_takes hlead with ⟨hline, -⟩ | ⟨word, hword, r, rfl, -⟩
  · exact hpre hline
  · rcases List.mem_pair.mp hword with rfl | rfl
    · exact (hrest 'i' rfl).1 rfl
    · exact (hrest 'r' rfl).2 rfl

/-- Blanks lead up to no specifier. -/
theorem matchAt_eq_none_of_isBlank (hrest : ∀ x ∈ rest, x.isBlank = true) :
    importPattern.matchAt (behind pre rest) = none := by
  refine Option.eq_none_iff_forall_ne_some.mpr fun m hm => ?_
  obtain ⟨w, post, g, hof⟩ := matchAt_of hm
  obtain ⟨x, hx, hink⟩ := inks_takes (by decide +kernel) hof.takes
  have hmem : x ∈ rest := by rw [List.append_cancel_left hof.text_eq]; exact List.mem_append_left post hx
  rw [hrest x hmem] at hink
  cases hink

theorem head_statementWord {word : String} (hword : word ∈ ["import", "export"]) (X : Text) :
    ∀ x ∈ (word.toList ++ X).head?, x = 'i' ∨ x = 'e' := by
  rcases List.mem_pair.mp hword with rfl | rfl
  · rintro _ ⟨⟩
    exact Or.inl rfl
  · rintro _ ⟨⟩
    exact Or.inr rfl

/-- A statement that starts in blanks in front of a line has its first word at the start of the line, behind blanks. -/
theorem exists_blanks_of_statement {a c t R b' X : Text} {word : String} (hword : word ∈ ["import", "export"])
    (hb : ∀ x ∈ b, x.isBlank = true) (ht : '\n' ∉ t) (hpre : AtLineStart (pre ++ a)) (hac : b ++ t = a ++ c)
    (hb' : ∀ x ∈ b', x.isBlank = true) (h : c ++ R = b' ++ (word.toList ++ X)) :
    ∃ l, (∀ x ∈ l, x.isBlank = true) ∧ t ++ R = l ++ (word.toList ++ X) := by
  rcases List.append_eq_append_iff.mp hac with ⟨d, rfl, rfl⟩ | ⟨d, rfl, rfl⟩
  · cases d with
    | nil => exact ⟨b', hb', h⟩
    | cons x d =>
      rw [← List.append_assoc] at hpre
      exact absurd hpre (not_atLineStart_append (List.cons_ne_nil x d) (fun hmem => ht (List.mem_append_left c hmem)) _)
  · have hd : ∀ x ∈ d, x.isBlank = true := fun x hx => hb x (List.mem_append_right a hx)
    rw [List.append_assoc] at h
    rcases List.append_eq_append_iff.mp h with ⟨l, rfl, hl⟩ | ⟨y, rfl, hy⟩
    · exact ⟨l, fun x hx => hb' x (List.mem_append_right d hx), hl⟩
    · cases y with
      | nil => exact ⟨[], List.forall_mem_nil _, hy.symm⟩
      | cons x y =>
        have hblank := hd x (by simp)
        rcases head_statementWord hword X x (by rw [hy]; rfl) with rfl | rfl <;> exact absurd hblank (by decide)

end Checkup
