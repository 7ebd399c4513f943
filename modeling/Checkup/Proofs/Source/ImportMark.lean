import Checkup.Proofs.Pattern.Scan
import Checkup.Proofs.Source.ImportMatch

/-!
# A mark in front of a specifier

A text without quotation marks and closing braces that is put in front of an imported specifier is read as a part of it.

* `importLead_inj`: there is one way to read what leads up to a specifier, so the match is the import where one stands
  (`IsImport.matchAt`).
* `Around`: where a quotation mark stands in an import.
* `matchAt_marked_eq_none`, `exists_mem_findAllBehind_marked`: the mark makes no match where there was none, and the
  search goes on to the marked specifier.
* `Quotes.mem_imports_marked`: the specifier is imported with its mark.
-/

namespace Checkup

open Pattern
open Cursor (behind)

variable {pre w post post' b lead lead' rest rest' s t u v x : Text} {q q' c c' : Char} {g g' : Marks} {m : Match}

/-! ## Leads -/

/-- What a re-export starts with, in front of what it names. -/
structure IsExportFront (f : Text) : Prop where
  exists_word : ∃ b r, f = b ++ ("export".toList ++ r) ∧ ∀ x ∈ b, x.isBlank = true
  plain : ∀ x ∈ f, x ∉ ['\'', '\"', '*', '\x7b']

/-- Whether the text starts with the word that no re-export starts with, behind blanks. -/
def IsImportLead (lead : Text) : Prop :=
  ∃ b word r, lead = b ++ (word.toList ++ r) ∧ word ∈ ["import", "require"] ∧ ∀ x ∈ b, x.isBlank = true

/-- A call up to its specifier is read in the same way whatever follows. -/
theorem moduleCall_takes_lead {word : String} (hword : word ∈ ["import", "require"])
    (h : (moduleCall word).Takes pre lead post g g') :
    IsImportLead lead ∧ Quoteless lead ∧ ∀ post', (moduleCall word).Takes pre lead post' g g' := by
  obtain ⟨space, space', rfl, hstart, hspace, hspace', rfl⟩ := moduleCall_takes_iff.mp h
  have hfirst (rest : Text) : (behind pre (word.toList ++ rest)).atWordBoundary = true ↔
      pre.getLast?.any Char.isWord = false := by
    rcases List.mem_pair.mp hword with rfl | rfl <;> exact atWordBoundary_before (by decide) pre _
  have hplain : ∀ x ∈ word.toList, x ∉ ['\'', '\"'] := by
    rcases List.mem_pair.mp hword with rfl | rfl <;> decide
  have hquoteless : Quoteless (word.toList ++ (space ++ '(' :: space')) :=
    (quoteless_of_not_mem hplain).append ((quoteless_of_isBlank hspace).append
      (List.forall_mem_cons.mpr ⟨rfl, quoteless_of_isBlank hspace'⟩))
  rw [List.append_assoc, hfirst] at hstart
  refine ⟨⟨[], word, _, rfl, hword, List.forall_mem_nil _⟩, hquoteless, fun post' => ?_⟩
  refine moduleCall_takes_iff.mpr ⟨space, space', rfl, ?_, hspace, hspace', rfl⟩
  rwa [List.append_assoc, hfirst]

/-- What leads up to a specifier is a re-export, in which any other names may stand, or it holds no quotation mark. It
is read in the same way whatever follows. -/
theorem importLead_takes_cases (h : importLead.Takes pre lead post g g') :
    (IsImportLead lead ∧ Quoteless lead ∧ ∀ post', importLead.Takes pre lead post' g g') ∨
      ∃ f core t, lead = f ++ (core ++ t) ∧ IsExportFront f ∧ IsExported core ∧ Quoteless t ∧
        ∀ core' post', IsExported core' → importLead.Takes pre (f ++ (core' ++ t)) post' g g' := by
  rw [importLead_eq] at h
  rcases h with h | h | h | h
  · obtain ⟨b, space, r, rfl, hline, hb, hspace, hr⟩ := statement_takes_iff.mp h
    refine Or.inl ⟨⟨b, "import", _, rfl, by simp, hb⟩, quoteless_takes (by decide +kernel) h, fun post' => Or.inl ?_⟩
    exact statement_takes_iff.mpr ⟨b, space, r, rfl, hline, hb, hspace, anchorless_takes (by decide +kernel) hr _ _⟩
  · obtain ⟨b, space, _, rfl, hline, hb, hspace, type, _, _, rfl, htype, core, t, _, rfl, hnames, ht⟩ :=
      statement_takes_iff.mp h
    obtain ⟨hcore, rfl⟩ := exported_takes_iff.mp hnames
    have hblanks {w : Text} (hw : ∀ x ∈ w, x.isBlank = true) : ∀ x ∈ w, x ∉ ['\'', '\"', '*', '\x7b'] := fun x hx =>
      not_mem_of_shuns (p := Char.isBlank) (by decide) (hw x hx)
    refine Or.inr ⟨b ++ ("export".toList ++ (space ++ type)), core, t, by simp, ⟨⟨b, _, rfl, hb⟩, ?_⟩, hcore,
      quoteless_takes (by decide +kernel) ht, fun core' post' hcore' => ?_⟩
    · simp only [List.forall_mem_append]
      exact ⟨hblanks hb, by decide, hblanks hspace.2, within_takes (by decide +kernel) htype⟩
    · refine Or.inr (Or.inl (statement_takes_iff.mpr ⟨b, space, type ++ (core' ++ t), by simp, hline, hb, hspace, ?_⟩))
      exact ⟨type, core' ++ t, _, rfl, anchorless_takes (by decide +kernel) htype _ _, core', t, _, rfl,
        exported_takes_iff.mpr ⟨hcore', rfl⟩, anchorless_takes (by decide +kernel) ht _ _⟩
  · obtain ⟨hlead, hquoteless, htakes⟩ := moduleCall_takes_lead (by simp) h
    exact Or.inl ⟨hlead, hquoteless, fun post' => Or.inr (Or.inr (Or.inl (htakes post')))⟩
  · obtain ⟨hlead, hquoteless, htakes⟩ := moduleCall_takes_lead (by simp) h
    exact Or.inl ⟨hlead, hquoteless, fun post' => Or.inr (Or.inr (Or.inr (htakes post')))⟩

theorem importLead_takes_post (h : importLead.Takes pre lead post g g') (post' : Text) :
    importLead.Takes pre lead post' g g' := by
  rcases importLead_takes_cases h with ⟨-, -, htakes⟩ | ⟨f, core, t, rfl, -, hcore, -, htakes⟩
  · exact htakes post'
  · exact htakes core post' hcore

/-- What leads up to an import is no start of a re-export. -/
theorem IsExportFront.ne_lead {f : Text} (hf : IsExportFront f) (hlead : IsImportLead lead) :
    f ++ rest ≠ lead ++ rest' := by
  intro h
  obtain ⟨⟨b, r, rfl, hb⟩, -⟩ := hf
  obtain ⟨b', word, r', rfl, hword, hb'⟩ := hlead
  simp only [List.append_assoc] at h
  have hhead {word : String} (hword : word ∈ ["import", "require", "export"]) (r : Text) :
      ∀ x ∈ (word.toList ++ r).head?, x.isBlank = false := by
    simp only [List.mem_cons, List.not_mem_nil, or_false] at hword
    rcases hword with rfl | rfl | rfl <;> (rintro _ ⟨⟩; decide)
  obtain ⟨-, hwords⟩ := Text.append_inj_of_class hb hb' (hhead (by simp) _)
    (hhead (by rcases List.mem_pair.mp hword with rfl | rfl <;> simp) _) h
  rcases List.mem_pair.mp hword with rfl | rfl <;> cases (List.cons.inj hwords).1

/-- There is one way to read the start of a re-export. -/
theorem IsExportFront.append_inj {f f' : Text} (hf : IsExportFront f) (hf' : IsExportFront f')
    (hc : c = '*' ∨ c = '\x7b') (hc' : c' = '*' ∨ c' = '\x7b') (h : f ++ c :: rest = f' ++ c' :: rest') :
    f = f' ∧ c = c' ∧ rest = rest' := by
  have hclass {f : Text} (hf : IsExportFront f) : ∀ x ∈ f, (x != '*' && x != '\x7b') = true := by
    intro x hx
    have hplain := hf.plain x hx
    simp only [List.mem_cons, not_or] at hplain
    simp [hplain]
  have hhead {c : Char} (hc : c = '*' ∨ c = '\x7b') (rest : Text) :
      ∀ x ∈ (c :: rest).head?, (x != '*' && x != '\x7b') = false := by
    rintro _ ⟨⟩
    rcases hc with rfl | rfl <;> rfl
  obtain ⟨rfl, htail⟩ := Text.append_inj_of_class (hclass hf) (hclass hf') (hhead hc rest) (hhead hc' rest') h
  exact ⟨rfl, List.cons.inj htail⟩

/-- There is one way to read what a re-export names. -/
theorem IsExported.append_inj {f f' core core' : Text} (hf : IsExportFront f) (hf' : IsExportFront f')
    (hcore : IsExported core) (hcore' : IsExported core') (h : f ++ (core ++ rest) = f' ++ (core' ++ rest')) :
    f = f' ∧ core = core' ∧ rest = rest' := by
  rcases hcore with rfl | ⟨x, hx, rfl⟩ <;> rcases hcore' with rfl | ⟨x', hx', rfl⟩
  · obtain ⟨rfl, -, rfl⟩ := hf.append_inj hf' (Or.inl rfl) (Or.inl rfl) h
    exact ⟨rfl, rfl, rfl⟩
  · cases (hf.append_inj hf' (Or.inl rfl) (Or.inr rfl) h).2.1
  · cases (hf.append_inj hf' (Or.inr rfl) (Or.inl rfl) h).2.1
  · obtain ⟨rfl, -, htail⟩ := hf.append_inj hf' (Or.inr rfl) (Or.inr rfl) h
    have hclass {x : Text} (hx : '\x7d' ∉ x) : ∀ y ∈ x, (y != '\x7d') = true := fun y hy =>
      bne_iff_ne.mpr fun h => hx (h ▸ hy)
    have hbrace (rest : Text) : ∀ y ∈ ('\x7d' :: rest).head?, (y != '\x7d') = false := by rintro _ ⟨⟩; rfl
    have hnames : x ++ '\x7d' :: rest = x' ++ '\x7d' :: rest' := by simpa using htail
    obtain ⟨rfl, hend⟩ := Text.append_inj_of_class (hclass hx) (hclass hx') (hbrace _) (hbrace _) hnames
    exact ⟨rfl, rfl, (List.cons.inj hend).2⟩

/-- **There is one way to read what leads up to a specifier.** -/
theorem importLead_inj {g₁ g₂ : Marks} (h : importLead.Takes pre lead post g g₁)
    (h' : importLead.Takes pre lead' post' g' g₂) (hq : isQuote q = true) (hq' : isQuote q' = true)
    (heq : lead ++ q :: rest = lead' ++ q' :: rest') : lead = lead' := by
  rcases importLead_takes_cases h with ⟨hlead, hquoteless, -⟩ | ⟨f, core, t, rfl, hf, hcore, ht, -⟩ <;>
    rcases importLead_takes_cases h' with ⟨hlead', hquoteless', -⟩ | ⟨f', core', t', rfl, hf', hcore', ht', -⟩
  · exact (hquoteless.append_inj hquoteless' hq hq' heq).1
  · simp only [List.append_assoc] at heq
    exact absurd heq.symm (hf'.ne_lead hlead)
  · simp only [List.append_assoc] at heq
    exact absurd heq (hf.ne_lead hlead')
  · simp only [List.append_assoc] at heq
    obtain ⟨rfl, rfl, htail⟩ := hcore.append_inj hf hf' hcore' heq
    rw [(ht.append_inj ht' hq hq' htail).1]

/-! ## Matches -/

/-- Whether the text is a specifier between these quotation marks. -/
structure IsQuoted (q : Char) (s : Text) (q' : Char) : Prop where
  opening : isQuote q = true
  closing : isQuote q' = true
  ne_nil : s ≠ []
  plain : ∀ x ∈ s, x ∉ ['\'', '\"', '\n']

theorem IsQuoted.quoteless (h : IsQuoted q s q') : Quoteless s := quoteless_of_not_mem h.plain

/-- Whether an import behind `pre` is the lead and the quoted specifier. -/
structure IsImport (pre lead : Text) (q : Char) (s : Text) (q' : Char) : Prop extends IsQuoted q s q' where
  takes : ∀ post, importLead.Takes pre lead post [] []

theorem exists_isImport (hm : importPattern.matchAt (behind pre rest) = some m) :
    ∃ lead q s q' post, rest = lead ++ q :: (s ++ q' :: post) ∧ IsImport pre lead q s q' ∧
      m.group? 1 = some ⟨Text.byteSize (pre ++ (lead ++ [q])), s⟩ ∧
      m.stop = Text.byteSize (pre ++ (lead ++ q :: (s ++ [q']))) := by
  obtain ⟨w, post, g, hof⟩ := matchAt_of hm
  obtain ⟨lead, q, s, q', rfl, hlead, hq, hq', hne, hs, hgroup⟩ := exists_of_match_importPattern hof
  refine ⟨lead, q, s, q', post, ?_, ⟨⟨hq, hq', hne, hs⟩, importLead_takes_post hlead⟩, ?_, hof.stop_eq⟩
  · simpa using List.append_cancel_left hof.text_eq
  · rw [hgroup, List.append_assoc]

/-- Where an import stands, the match is this import. -/
theorem IsImport.matchAt (h : IsImport pre lead q s q') (post : Text) :
    ∃ m, importPattern.matchAt (behind pre (lead ++ q :: (s ++ q' :: post))) = some m ∧
      m.group? 1 = some ⟨Text.byteSize (pre ++ (lead ++ [q])), s⟩ ∧
      m.stop = Text.byteSize (pre ++ (lead ++ q :: (s ++ [q']))) := by
  have hunique : ∀ lead' p v, importLead.Takes pre lead' (p :: v) [] [] → isQuote p = true →
      lead' ++ p :: v = lead ++ q :: (s ++ q' :: post) → lead' = lead :=
    fun lead' p v hlead' hp hsplit => importLead_inj hlead' (h.takes []) hp h.opening hsplit
  simpa using matchAt_of_lead (h.takes (q :: (s ++ q' :: post))) hunique h.opening h.closing h.ne_nil h.plain

/-- Where an import stands, the search takes it and goes on behind it. -/
theorem IsImport.findAllBehind (h : IsImport pre lead q s q') (post : Text) :
    ∃ m, m.group? 1 = some ⟨Text.byteSize (pre ++ (lead ++ [q])), s⟩ ∧
      importPattern.findAllBehind pre (lead ++ q :: (s ++ q' :: post)) =
        m :: importPattern.findAllBehind (pre ++ (lead ++ q :: (s ++ [q']))) post := by
  obtain ⟨m, hm, hgroup, hstop⟩ := h.matchAt post
  have hsplit : lead ++ q :: (s ++ q' :: post) = (lead ++ q :: (s ++ [q'])) ++ post := by simp
  rw [hsplit] at hm ⊢
  exact ⟨m, hgroup, findAllBehind_match (by simp) hm hstop⟩

/-- A specifier starts behind the place from which the search comes, with a lead and a quotation mark in between. -/
theorem lt_start_of_mem (hm : m ∈ importPattern.findAllBehind pre rest) {g : Capture} (hg : m.group? 1 = some g) :
    Text.byteSize pre + 1 < g.start := by
  have hle := (findAllFrom_increasing importPattern pre rest (Text.byteSize pre)).1 m hm
  obtain ⟨pre', w, post, marks, hof⟩ := findAllFrom_of pre hm
  obtain ⟨lead, q, s, q', rfl, hlead, hq, -, -, -, hgroup⟩ := exists_of_match_importPattern hof
  obtain ⟨x, w, rfl, -⟩ := opens_takes (s := []) (by decide +kernel) hlead
  have hx := x.utf8Size_pos
  rw [hof.eq] at hle
  obtain rfl := Option.some.inj (hgroup.symm.trans hg)
  simp only [Text.byteSize_append, Text.byteSize_cons, Text.byteSize_nil, utf8Size_of_isQuote hq]
  dsimp only at hle
  omega

/-- A specifier that is found from where an import stands is the one of the import, or starts behind the import. -/
theorem IsImport.mem_cases (h : IsImport pre lead q s q')
    (hm : m ∈ importPattern.findAllBehind pre (lead ++ q :: (s ++ q' :: post))) (hone : c.utf8Size = 1)
    (hgroup : m.group? 1 = some ⟨Text.byteSize (pre ++ (u ++ [c])), t⟩) :
    Text.byteSize lead = Text.byteSize u ∨ Text.byteSize (lead ++ q :: (s ++ [q'])) < Text.byteSize u ∧
      m ∈ importPattern.findAllBehind (pre ++ (lead ++ q :: (s ++ [q']))) post := by
  obtain ⟨m₀, hgroup₀, hfind⟩ := h.findAllBehind post
  rw [hfind] at hm
  rcases List.mem_cons.mp hm with rfl | hm
  · have hsame := congrArg Capture.start (Option.some.inj (hgroup₀.symm.trans hgroup))
    simp only [Text.byteSize_append, Text.byteSize_singleton, utf8Size_of_isQuote h.opening, hone] at hsame
    exact Or.inl (by omega)
  · have hlt := lt_start_of_mem hm hgroup
    simp only [Text.byteSize_append, Text.byteSize_singleton, hone] at hlt ⊢
    exact Or.inr ⟨by omega, hm⟩

/-! ## A quotation mark in an import -/

/-- Where a quotation mark between `u` and `v` stands in an import, with what follows it. -/
inductive Around (u : Text) (c : Char) (v : Text) : (lead : Text) → (q : Char) → (s : Text) → (q' : Char) →
    (post : Text) → Prop where
  /-- in what leads up to the specifier -/
  | lead {v' : Text} {q q' : Char} {s post : Text} :
      v = v' ++ q :: (s ++ q' :: post) → Around u c v (u ++ c :: v') q s q' post
  /-- right in front of the specifier -/
  | opening {q' : Char} {s post : Text} : v = s ++ q' :: post → Around u c v u c s q' post
  /-- right behind the specifier -/
  | closing {lead s : Text} {q : Char} : u = lead ++ q :: s → Around u c v lead q s c v
  /-- behind the import -/
  | behind {lead s z : Text} {q q' : Char} :
      u = lead ++ q :: (s ++ q' :: z) → Around u c v lead q s q' (z ++ c :: v)

theorem around (hc : isQuote c = true) (hs : Quoteless s) (h : lead ++ q :: (s ++ q' :: post) = u ++ c :: v) :
    Around u c v lead q s q' post := by
  rcases List.append_eq_append_iff.mp h with ⟨a, rfl, ha⟩ | ⟨a, rfl, ha⟩
  · cases a with
    | nil =>
      obtain ⟨rfl, rfl⟩ := List.cons.inj ha
      rw [List.append_nil]
      exact .opening rfl
    | cons x a =>
      obtain ⟨rfl, htail⟩ := List.cons.inj ha
      obtain ⟨z, rfl, hz⟩ := exists_append_of_quoteless hs hc htail
      cases z with
      | nil =>
        obtain ⟨rfl, rfl⟩ := List.cons.inj hz
        exact .closing (by rw [List.append_nil])
      | cons y z =>
        obtain ⟨rfl, rfl⟩ := List.cons.inj hz
        exact .behind rfl
  · cases a with
    | nil =>
      obtain ⟨rfl, rfl⟩ := List.cons.inj ha
      rw [List.append_nil]
      exact .opening rfl
    | cons x a =>
      obtain ⟨rfl, rfl⟩ := List.cons.inj ha
      exact .lead rfl

/-- A specifier that is found from where an import stands is the one of the import, or it stands behind the import and
is found from there. -/
theorem IsImport.opening_or_behind (h : IsImport pre lead q s q') (hc : isQuote c = true)
    (hsplit : lead ++ q :: (s ++ q' :: post) = u ++ c :: v) (hm : m ∈ importPattern.findAllBehind pre (u ++ c :: v))
    (hgroup : m.group? 1 = some ⟨Text.byteSize (pre ++ (u ++ [c])), t⟩) :
    (u = lead ∧ q = c ∧ v = s ++ q' :: post) ∨ ∃ z, u = lead ++ q :: (s ++ q' :: z) ∧ post = z ++ c :: v ∧
      m ∈ importPattern.findAllBehind (pre ++ (lead ++ q :: (s ++ [q']))) post := by
  have hcases := h.mem_cases (hsplit ▸ hm) (utf8Size_of_isQuote hc) hgroup
  have hlt {a b : Text} {d : Char} : Text.byteSize a < Text.byteSize (a ++ d :: b) :=
    Text.byteSize_lt_append a (List.cons_ne_nil d b)
  -- in the import and right behind its specifier no specifier starts
  cases around hc h.quoteless hsplit with
  | @lead v' =>
    have hlead := hlt (a := u) (b := v') (d := c)
    have hall := hlt (a := u ++ c :: v') (b := s ++ [q']) (d := q)
    rcases hcases with h | ⟨h, -⟩ <;> omega
  | opening hv => exact Or.inl ⟨rfl, rfl, hv⟩
  | closing hu =>
    have hlead := hlt (a := lead) (b := s) (d := q)
    have hall := hlt (a := u) (b := []) (d := q')
    rw [hu, List.append_assoc, List.cons_append] at hall
    rw [hu] at hcases
    rcases hcases with h | ⟨h, -⟩ <;> omega
  | @behind _ _ z _ _ hu =>
    have hlead := hlt (a := lead) (b := s ++ q' :: z) (d := q)
    rw [← hu] at hlead
    rcases hcases with h | ⟨-, hm⟩
    · omega
    · exact Or.inr ⟨z, hu, rfl, hm⟩

/-- A quotation mark in a lead stands in the braces of a re-export, where any text may be put behind it or taken away
that does not close them. -/
theorem importLead_takes_quote {v' : Text} (hlead : importLead.Takes pre (u ++ c :: v') post [] [])
    (hc : isQuote c = true) :
    ∃ y t, v' = y ++ '\x7d' :: t ∧ '\x7d' ∉ y ∧
      ∀ y' post, '\x7d' ∉ y' → importLead.Takes pre (u ++ c :: (y' ++ '\x7d' :: t)) post [] [] := by
  rcases importLead_takes_cases hlead with ⟨-, hquoteless, -⟩ | ⟨f, core, t, hsplit, hf, hcore, ht, htakes⟩
  · exact absurd (by simp) (hquoteless.not_mem hc)
  obtain ⟨z, rfl, hz⟩ := exists_append_of_quoteless (quoteless_of_not_mem hf.plain) hc hsplit.symm
  rcases hcore with rfl | ⟨x, hx, rfl⟩
  · have hstar : Quoteless (['*'] ++ t) := List.forall_mem_cons.mpr ⟨rfl, ht⟩
    exact absurd (hz ▸ by simp) (hstar.not_mem hc)
  cases z with
  | nil =>
    obtain ⟨rfl, -⟩ := List.cons.inj hz
    cases hc
  | cons o z =>
    obtain ⟨rfl, hnames⟩ := List.cons.inj hz
    have hend : Quoteless ('\x7d' :: t) := List.forall_mem_cons.mpr ⟨rfl, ht⟩
    have hnames : x ++ '\x7d' :: t = z ++ c :: v' := by simpa using hnames
    rcases List.append_eq_append_iff.mp hnames with ⟨y, rfl, hy⟩ | ⟨y, rfl, hy⟩
    · exact absurd (by rw [hy]; simp) (hend.not_mem hc)
    cases y with
    | nil =>
      obtain ⟨rfl, -⟩ := List.cons.inj hy
      exact absurd (by simp) (hend.not_mem hc)
    | cons d y =>
      obtain ⟨rfl, rfl⟩ := List.cons.inj hy
      simp only [List.mem_append, List.mem_cons, not_or] at hx
      refine ⟨y, t, rfl, hx.2.2, fun y' post hy' => ?_⟩
      have hnames' : '\x7d' ∉ z ++ c :: y' := by
        simp only [List.mem_append, List.mem_cons, not_or]
        exact ⟨hx.1, hx.2.1, hy'⟩
      simpa using htakes _ post (Or.inr ⟨z ++ c :: y', hnames', rfl⟩)

/-! ## Marks -/

/-- A text that may be put in front of a specifier. -/
structure IsMark (mark : Text) : Prop where
  plain : ∀ x ∈ mark, x ∉ ['\'', '\"', '\n']
  braceless : '\x7d' ∉ mark

theorem IsQuoted.marked {mark : Text} (h : IsQuoted q s q') (hmark : IsMark mark) : IsQuoted q (mark ++ s) q' :=
  ⟨h.opening, h.closing, by simp [h.ne_nil], List.forall_mem_append.mpr ⟨hmark.plain, h.plain⟩⟩

/-- The mark makes no match where there was none. -/
theorem matchAt_marked_eq_none {mark : Text} (hs : IsQuoted q s q') (hmark : IsMark mark)
    (h : importPattern.matchAt (behind pre (u ++ q :: (s ++ q' :: post))) = none) :
    importPattern.matchAt (behind pre (u ++ q :: (mark ++ (s ++ q' :: post)))) = none := by
  have hnone {lead s₀ : Text} {p p' : Char} (h₀ : IsImport pre lead p s₀ p') (rest : Text) :
      u ++ q :: (s ++ q' :: post) ≠ lead ++ p :: (s₀ ++ p' :: rest) := by
    intro hsplit
    obtain ⟨m, hm, -⟩ := h₀.matchAt rest
    rw [← hsplit, h] at hm
    cases hm
  refine Option.eq_none_iff_forall_ne_some.mpr fun m hm => ?_
  obtain ⟨lead, p, s₀, p', post₀, hsplit, h₀, -⟩ := exists_isImport hm
  have haround := around hs.opening h₀.quoteless hsplit.symm
  cases haround with
  | @lead v' _ _ _ _ hv =>
    obtain ⟨y, t, rfl, hy, htakes⟩ := importLead_takes_quote (h₀.takes []) hs.opening
    rw [List.append_assoc, List.cons_append] at hv
    obtain ⟨y, rfl, hbehind⟩ := exists_append_of_not_mem hmark.braceless hv
    refine hnone ⟨h₀.toIsQuoted, fun rest => htakes y rest fun hmem => hy (List.mem_append_right mark hmem)⟩ post₀ ?_
    rw [hbehind]
    simp
  | opening => exact hnone ⟨hs, h₀.takes⟩ post rfl
  | closing hu => exact hnone h₀ (s ++ q' :: post) (by rw [hu]; simp)
  | @behind _ _ z _ _ hu => exact hnone h₀ (z ++ q :: (s ++ q' :: post)) (by rw [hu]; simp)

/-- From each place in front of a specifier that the search finds, it finds the specifier with its mark. -/
theorem exists_mem_findAllBehind_marked {mark : Text} (hs : IsQuoted q s q') (hmark : IsMark mark) (pre u : Text)
    (hm : m ∈ importPattern.findAllBehind pre (u ++ q :: (s ++ q' :: post)))
    (hgroup : m.group? 1 = some ⟨Text.byteSize (pre ++ (u ++ [q])), s⟩) :
    ∃ m ∈ importPattern.findAllBehind pre (u ++ q :: (mark ++ (s ++ q' :: post))),
      m.group? 1 = some ⟨Text.byteSize (pre ++ (u ++ [q])), mark ++ s⟩ := by
  cases hmatch : importPattern.matchAt (behind pre (u ++ q :: (s ++ q' :: post))) with
  | none =>
    have hstart := lt_start_of_mem hm hgroup
    simp only [Text.byteSize_append, Text.byteSize_singleton, utf8Size_of_isQuote hs.opening] at hstart
    obtain ⟨x, u, rfl⟩ := List.exists_cons_of_ne_nil (l := u) fun hnil => by
      rw [hnil, Text.byteSize_nil] at hstart
      omega
    have hskip {rest : Text} (h : importPattern.matchAt (behind pre (x :: u ++ rest)) = none) :
        importPattern.findAllBehind pre (x :: u ++ rest) = importPattern.findAllBehind (pre ++ [x]) (u ++ rest) :=
      findAllBehind_append (unmatched_singleton h)
    rw [hskip hmatch] at hm
    have hbehind := exists_mem_findAllBehind_marked hs hmark (pre ++ [x]) u hm (by simpa using hgroup)
    rw [hskip (matchAt_marked_eq_none hs hmark hmatch)]
    simpa using hbehind
  | some m₀ =>
    obtain ⟨lead, p, s₀, p', post₀, hsplit, h₀, -⟩ := exists_isImport hmatch
    rcases h₀.opening_or_behind hs.opening hsplit.symm hm hgroup with ⟨rfl, rfl, hv⟩ | ⟨z, hu, rfl, hm⟩
    · obtain ⟨rfl, -, -⟩ := hs.quoteless.append_inj h₀.quoteless hs.closing h₀.closing hv
      have hmarked : IsImport pre u p (mark ++ s) q' := ⟨hs.marked hmark, h₀.takes⟩
      obtain ⟨m₁, hgroup₁, hfind⟩ := hmarked.findAllBehind post
      rw [List.append_assoc] at hfind
      rw [hfind]
      exact ⟨m₁, List.mem_cons_self, hgroup₁⟩
    · have hplace : pre ++ (u ++ [q]) = (pre ++ (lead ++ p :: (s₀ ++ [p']))) ++ (z ++ [q]) := by rw [hu]; simp
      rw [hplace] at hgroup ⊢
      have hshort : z.length < u.length := by
        rw [hu]
        simp
        omega
      obtain ⟨m₁, hm₁, hgroup₁⟩ := exists_mem_findAllBehind_marked hs hmark _ z hm hgroup
      obtain ⟨m₂, -, hfind⟩ := h₀.findAllBehind (z ++ q :: (mark ++ (s ++ q' :: post)))
      have hmarked : u ++ q :: (mark ++ (s ++ q' :: post)) =
          lead ++ p :: (s₀ ++ p' :: (z ++ q :: (mark ++ (s ++ q' :: post)))) := by rw [hu]; simp
      rw [hmarked, hfind]
      exact ⟨m₁, List.mem_cons_of_mem _ hm₁, hgroup₁⟩
termination_by u.length

/-! ## Imports -/

variable {content : Text} {r : ImportRef}

theorem mem_imports_iff :
    r ∈ imports content ↔ ∃ m ∈ importPattern.findAll content, m.group? 1 = some ⟨r.offset, r.specifier⟩ := by
  rw [imports, List.mem_filterMap]
  refine exists_congr fun m => and_congr_right fun _ => ?_
  constructor
  · intro h
    obtain ⟨g, hg, rfl⟩ := Option.map_eq_some_iff.mp h
    exact hg
  · intro h
    rw [h]
    rfl

/-- Where a specifier stands in a file, between its quotation marks. -/
structure Quotes (content : Text) (r : ImportRef) (front : Text) (q q' : Char) (rear : Text) : Prop
    extends IsQuoted q r.specifier q' where
  content_eq : content = front ++ q :: (r.specifier ++ q' :: rear)
  offset_eq : r.offset = Text.byteSize (front ++ [q])

theorem exists_quotes (h : r ∈ imports content) : ∃ front q q' rear, Quotes content r front q q' rear := by
  obtain ⟨m, hm, hgroup⟩ := mem_imports_iff.mp h
  obtain ⟨pre, w, post, g, hof⟩ := findAll_of hm
  obtain ⟨lead, q, s, q', rfl, -, hq, hq', hne, hs, hgroup'⟩ := exists_of_match_importPattern hof
  obtain ⟨hoffset, hspecifier⟩ := Capture.mk.inj (Option.some.inj (hgroup.symm.trans hgroup'))
  subst hspecifier
  exact ⟨pre ++ lead, q, q', post, ⟨hq, hq', hne, hs⟩, by rw [hof.text_eq]; simp, hoffset⟩

/-- **A mark in front of an imported specifier** is read as a part of it. -/
theorem Quotes.mem_imports_marked {front rear mark : Text} (hquotes : Quotes content r front q q' rear)
    (h : r ∈ imports content) (hmark : IsMark mark) :
    ⟨mark ++ r.specifier, r.offset⟩ ∈ imports (front ++ q :: (mark ++ (r.specifier ++ q' :: rear))) := by
  obtain ⟨m, hm, hgroup⟩ := mem_imports_iff.mp h
  rw [hquotes.content_eq, findAll_eq_behind] at hm
  rw [hquotes.offset_eq] at hgroup
  obtain ⟨m', hm', hgroup'⟩ := exists_mem_findAllBehind_marked hquotes.toIsQuoted hmark [] front hm hgroup
  exact mem_imports_iff.mpr ⟨m', hm', by rw [hgroup', hquotes.offset_eq]; rfl⟩

end Checkup
