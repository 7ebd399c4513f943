import Checkup.Proofs.Pattern.Scan
import Checkup.Proofs.Source.ImportMatch
import Checkup.Proofs.Text.Mention

/-!
# Forms of imports

The common ways to write an import: `ImportForm.lead` is what stands in front of the specifier and its quotation marks,
and `ImportForm.tail` what stands behind them.

* `ImportForm.startsIn`: behind blanks at the start of a line, the match of an import starts in its lead, and nothing
  that starts before gets there.
* `ImportForm.unmatched_tail`: no match starts behind the specifier.
-/

namespace Checkup

open Pattern

variable {pre b rest : Text}

/-! ## Forms -/

/-- A name that an import binds. -/
structure BindingName where
  text : Text
  isIdentifier : Text.isIdentifier text = true

/-- What a list of names holds: characters of names, commas and spaces. -/
def isListChar (c : Char) : Bool := c.isIdent || c == ',' || c == ' '

/-- Names with commas between them, and spaces anywhere. -/
structure BindingList where
  text : Text
  isListed : ∀ x ∈ text, isListChar x = true

/-- The forms of an import: what it binds, re-exports or calls. -/
inductive ImportForm where
  | bare
  | single (name : BindingName)
  | named (names : BindingList)
  | star (name : BindingName)
  | types (names : BindingList)
  | exportStar
  | exportNamed (names : BindingList)
  | exportAs (name : BindingName)
  | required (name : BindingName)
  | dynamic (name : BindingName)

/-- Names in braces. -/
def BindingList.braced (names : BindingList) : Text := "\x7b ".toList ++ (names.text ++ " \x7d".toList)

namespace ImportForm

/-- What stands in front of the quotation mark. -/
def lead : ImportForm → Text
  | bare => "import ".toList
  | single name => "import ".toList ++ (name.text ++ " from ".toList)
  | named names => "import ".toList ++ (names.braced ++ " from ".toList)
  | star name => "import * as ".toList ++ (name.text ++ " from ".toList)
  | types names => "import type ".toList ++ (names.braced ++ " from ".toList)
  | exportStar => "export * from ".toList
  | exportNamed names => "export ".toList ++ (names.braced ++ " from ".toList)
  | exportAs name => "export * as ".toList ++ (name.text ++ " from ".toList)
  | required name => "const ".toList ++ (name.text ++ " = require(".toList)
  | dynamic name => "const ".toList ++ (name.text ++ " = import(".toList)

/-- What stands behind the quotation mark. -/
def tail : ImportForm → Text
  | required _ => ");".toList
  | dynamic _ => ");".toList
  | _ => ";".toList

end ImportForm

/-! ## Names -/

theorem BindingName.isIdent (name : BindingName) : ∀ x ∈ name.text, x.isIdent = true :=
  Text.isIdent_of_mem name.isIdentifier

theorem BindingName.not_mem (name : BindingName) {cs : List Char} (h : shuns cs Char.isIdent = true) :
    ∀ x ∈ name.text, x ∉ cs :=
  fun x hx => not_mem_of_shuns h (name.isIdent x hx)

theorem BindingList.not_mem (names : BindingList) {cs : List Char} (h : shuns cs isListChar = true) :
    ∀ x ∈ names.text, x ∉ cs :=
  fun x hx => not_mem_of_shuns h (names.isListed x hx)

/-! ## Declarations -/

/-- A declaration starts with neither of the words that a statement starts with. -/
theorem const_ne_statement {l X t : Text} {word : String} (hword : word ∈ ["import", "export"])
    (hl : ∀ x ∈ l, x.isBlank = true) : "const ".toList ++ t ≠ l ++ (word.toList ++ X) := by
  intro h
  cases l with
  | nil =>
    have hhead := head_statementWord hword X 'c'
    rw [← List.nil_append (word.toList ++ X), ← h] at hhead
    exact absurd (hhead rfl) (by decide)
  | cons x l =>
    obtain ⟨rfl, -⟩ := List.cons.inj h
    exact absurd (hl 'c' List.mem_cons_self) (by decide)

/-- A call has no equals sign in front of its quotation mark. -/
theorem not_mem_of_call {r : Text} {word : String} (hword : word ∈ ["import", "require"])
    (hr : ∀ x ∈ r, isOpening x = true) : '=' ∉ word.toList ++ r := by
  intro hmem
  rcases List.mem_append.mp hmem with hmem | hmem
  · rcases List.mem_pair.mp hword with rfl | rfl <;> exact absurd hmem (by decide)
  · exact absurd (hr _ hmem) (by decide)

/-- What a declaration has in front of its value. -/
def declaration (name : BindingName) : Text := "const ".toList ++ (name.text ++ " =".toList)

theorem declaration_not_mem (name : BindingName) {cs : List Char} (hname : shuns cs Char.isIdent = true)
    (hconst : ∀ x ∈ "const ".toList, x ∉ cs) (hequals : ∀ x ∈ " =".toList, x ∉ cs) : ∀ x ∈ declaration name, x ∉ cs :=
  List.forall_mem_append.mpr ⟨hconst, List.forall_mem_append.mpr ⟨name.not_mem hname, hequals⟩⟩

theorem declaration_oneLine (name : BindingName) : '\n' ∉ declaration name := by
  have hall : ∀ x ∈ declaration name, x ∉ ['\n'] := declaration_not_mem name (by decide) (by decide) (by decide)
  exact fun hmem => hall _ hmem (List.mem_singleton_self _)

theorem declaration_quoteless (name : BindingName) : Quoteless (declaration name) := by
  have hall : ∀ x ∈ declaration name, x ∉ ['\'', '\"'] := declaration_not_mem name (by decide) (by decide) (by decide)
  exact quoteless_of_not_mem hall

/-- In a declaration no match starts in front of the value. -/
theorem unmatched_declaration (name : BindingName) (hb : ∀ x ∈ b, x.isBlank = true) :
    importPattern.Unmatched pre (b ++ declaration name) rest := by
  intro a c hac hc
  refine Option.eq_none_iff_forall_ne_some.mpr fun m hm => ?_
  obtain ⟨lead, q, s, q', post, hsplit, hlead, hq, -⟩ := exists_of_matchAt_importPattern hm
  rcases importLead_takes hlead with ⟨hstart, word, hmem, b', space, r, rfl, hb', -⟩ | ⟨word, hmem, r, rfl, hr⟩
  · obtain ⟨l, hl, htext⟩ := exists_blanks_of_statement (X := space ++ (r ++ q :: (s ++ q' :: post))) hmem hb
      (declaration_oneLine name) hstart hac hb' (by simpa using hsplit)
    rw [declaration, List.append_assoc] at htext
    exact const_ne_statement hmem hl htext
  · -- what the match starts with goes up to the equals sign
    have hequals : '=' ∈ c := by
      have hend : a ++ c = b ++ ("const ".toList ++ (name.text ++ [' '])) ++ ['='] := by
        rw [← hac, declaration]
        simp
      have hlast := congrArg List.getLast? hend
      rw [List.getLast?_append_of_ne_nil _ hc, List.getLast?_concat] at hlast
      exact List.mem_of_getLast? hlast
    have hquoteless := (quoteless_of_isBlank hb).append (declaration_quoteless name)
    rw [hac] at hquoteless
    obtain ⟨z, hz, -⟩ := exists_append_of_quoteless (fun x hx => hquoteless x (List.mem_append_right a hx)) hq hsplit
    exact not_mem_of_call hmem hr (hz ▸ List.mem_append_left z hequals)

/-! ## Where the matches start -/

/-- Where the match of an import starts that stands behind blanks, `t` being what stands in front of the quotation mark:
no match starts before that, and what follows leads up to the mark. -/
def StartsIn (pre b t : Text) : Prop :=
  ∃ u lead, b ++ t = u ++ lead ∧ (∀ rest, importPattern.Unmatched pre u rest) ∧ Quoteless lead ∧ BracesClosed lead ∧
    ∀ post, importLead.Takes (pre ++ u) lead post [] []

/-- A statement starts in front of the blanks. -/
theorem startsIn_statement {t : Text} (hquoteless : Quoteless (b ++ t)) (hbraces : BracesClosed (b ++ t))
    (htakes : ∀ post, importLead.Takes pre (b ++ t) post [] []) : StartsIn pre b t := by
  refine ⟨[], b ++ t, rfl, fun rest a c hac hc => ?_, hquoteless, hbraces, fun post => ?_⟩
  · exact absurd (List.append_eq_nil_iff.mp hac.symm).2 hc
  · rw [List.append_nil]
    exact htakes post

theorem startsIn_plain {t : Text} (hb : ∀ x ∈ b, x.isBlank = true) (ht : ∀ x ∈ t, x ∉ ['\'', '\"', '\x7b'])
    (htakes : ∀ post, importLead.Takes pre (b ++ t) post [] []) : StartsIn pre b t := by
  refine startsIn_statement ((quoteless_of_isBlank hb).append (quoteless_of_not_mem ht))
    (bracesClosed_of_not_mem fun hmem => ?_) htakes
  rcases List.mem_append.mp hmem with hmem | hmem
  · exact absurd (hb _ hmem) (by decide)
  · exact ht _ hmem (by simp)

theorem startsIn_braced {front : Text} {names : BindingList} (hb : ∀ x ∈ b, x.isBlank = true)
    (hfront : ∀ x ∈ front, x ∉ ['\'', '\"', '\x7b'])
    (htakes : ∀ post, importLead.Takes pre (b ++ (front ++ (names.braced ++ " from ".toList))) post [] []) :
    StartsIn pre b (front ++ (names.braced ++ " from ".toList)) := by
  have hnames : ∀ x ∈ ' ' :: (names.text ++ " \x7d from ".toList), x ∉ ['\'', '\"', '\x7b'] :=
    List.forall_mem_cons.mpr ⟨by decide, List.forall_mem_append.mpr ⟨names.not_mem (by decide), by decide⟩⟩
  have hopen : '\x7b' ∉ b ++ front := fun hmem => by
    rcases List.mem_append.mp hmem with hmem | hmem
    · exact absurd (hb _ hmem) (by decide)
    · exact hfront _ hmem (by simp)
  have hsplit : b ++ (front ++ (names.braced ++ " from ".toList)) =
      (b ++ front) ++ '\x7b' :: (' ' :: (names.text ++ " \x7d from ".toList)) := by simp [BindingList.braced]
  refine startsIn_statement ?_ ?_ htakes
  · rw [hsplit]
    exact ((quoteless_of_isBlank hb).append (quoteless_of_not_mem hfront)).append
      (List.forall_mem_cons.mpr ⟨rfl, quoteless_of_not_mem hnames⟩)
  · rw [hsplit]
    exact bracesClosed_pair hopen (fun hmem => hnames _ hmem (by simp)) (by simp)

/-- A call starts behind the equals sign. -/
theorem startsIn_call {word : String} (hword : word ∈ ["import", "require"]) (name : BindingName)
    (hb : ∀ x ∈ b, x.isBlank = true) :
    StartsIn pre b ("const ".toList ++ (name.text ++ (" = ".toList ++ (word.toList ++ ['('])))) := by
  have hplain : ∀ x ∈ word.toList ++ ['('], x ∉ ['\'', '\"', '\x7b'] := by
    rcases List.mem_pair.mp hword with rfl | rfl <;> decide
  have hspace (rest : Text) : importPattern.Unmatched (pre ++ (b ++ declaration name)) [' '] rest := by
    refine unmatched_singleton (matchAt_eq_none_of_head ?_ (by rintro _ ⟨⟩; decide))
    rw [← List.append_assoc]
    exact not_atLineStart_append (by simp [declaration]) (declaration_oneLine name) _
  refine ⟨b ++ declaration name ++ [' '], word.toList ++ ['('], by simp [declaration],
    fun rest => (unmatched_declaration name hb).append (hspace rest), quoteless_of_not_mem hplain,
    bracesClosed_of_not_mem fun hmem => hplain _ hmem (by simp), fun post => moduleCall_takes ?_ hword⟩
  rw [← List.append_assoc, List.getLast?_concat]
  decide

/-- In every form the match starts at the start of the line or at the call. -/
theorem ImportForm.startsIn (form : ImportForm) (hpre : AtLineStart pre) (hb : ∀ x ∈ b, x.isBlank = true) :
    StartsIn pre b form.lead := by
  have hname (name : BindingName) {front : Text} (hfront : ∀ x ∈ front, x ∉ ['\'', '\"', '\x7b']) :
      ∀ x ∈ front ++ (name.text ++ " from ".toList), x ∉ ['\'', '\"', '\x7b'] :=
    List.forall_mem_append.mpr ⟨hfront, List.forall_mem_append.mpr ⟨name.not_mem (by decide), by decide⟩⟩
  have hbraced (names : BindingList) : ∀ x ∈ names.braced, x ∉ ['\'', '\"', ';'] :=
    List.forall_mem_append.mpr ⟨by decide, List.forall_mem_append.mpr ⟨names.not_mem (by decide), by decide⟩⟩
  cases form with
  | bare =>
    show StartsIn pre b "import ".toList
    exact startsIn_plain hb (by decide) fun post => importStatement_takes_bare hpre hb
  | single name =>
    show StartsIn pre b ("import ".toList ++ (name.text ++ " from ".toList))
    have hclause : ∀ x ∈ name.text, x ∉ ['\'', '\"', ';'] := name.not_mem (by decide)
    exact startsIn_plain hb (hname name (by decide)) fun post => importStatement_takes hpre hb hclause
  | named names =>
    exact startsIn_braced hb (by decide) fun post => importStatement_takes hpre hb (hbraced names)
  | star name =>
    show StartsIn pre b ("import * as ".toList ++ (name.text ++ " from ".toList))
    have hclause : ∀ x ∈ "* as ".toList ++ name.text, x ∉ ['\'', '\"', ';'] :=
      List.forall_mem_append.mpr ⟨by decide, name.not_mem (by decide)⟩
    refine startsIn_plain hb (hname name (by decide)) fun post => ?_
    simpa using importStatement_takes hpre hb hclause
  | types names =>
    have hclause : ∀ x ∈ "type ".toList ++ names.braced, x ∉ ['\'', '\"', ';'] :=
      List.forall_mem_append.mpr ⟨by decide, hbraced names⟩
    refine startsIn_braced hb (by decide) fun post => ?_
    simpa using importStatement_takes hpre hb hclause
  | exportStar =>
    show StartsIn pre b "export * from ".toList
    refine startsIn_plain hb (by decide) fun post => ?_
    simpa using exportStatement_takes hpre hb (Or.inl rfl) (Or.inl rfl)
  | exportNamed names =>
    have hinside : ∀ x ∈ [' '] ++ (names.text ++ [' ']), x ∉ ['\x7d'] :=
      List.forall_mem_append.mpr ⟨by decide, List.forall_mem_append.mpr ⟨names.not_mem (by decide), by decide⟩⟩
    have hclose : '\x7d' ∉ [' '] ++ (names.text ++ [' ']) := fun hmem => hinside _ hmem (List.mem_singleton_self _)
    refine startsIn_braced hb (by decide) fun post => ?_
    simpa [BindingList.braced] using exportStatement_takes hpre hb (Or.inr ⟨_, hclose, rfl⟩) (Or.inl rfl)
  | exportAs name =>
    show StartsIn pre b ("export * as ".toList ++ (name.text ++ " from ".toList))
    have hnames : ∀ x ∈ name.text, x.isName = true := fun x hx => isName_of_isIdent (name.isIdent x hx)
    have hne := Text.ne_nil_of_isIdentifier name.isIdentifier
    refine startsIn_plain hb (hname name (by decide)) fun post => ?_
    simpa using exportStatement_takes hpre hb (Or.inl rfl) (Or.inr ⟨name.text, hne, hnames, rfl⟩)
  | required name => exact startsIn_call (List.mem_cons_of_mem _ (List.mem_singleton_self "require")) name hb
  | dynamic name => exact startsIn_call List.mem_cons_self name hb

theorem ImportForm.tail_eq (form : ImportForm) : form.tail = [';'] ∨ form.tail = [')', ';'] := by
  cases form <;> first | exact Or.inl rfl | exact Or.inr rfl

/-- Behind the specifier no match starts in the line. -/
theorem ImportForm.unmatched_tail (form : ImportForm) (hpre : ¬ AtLineStart pre) :
    importPattern.Unmatched pre form.tail rest := by
  have hmark {pre rest : Text} {c : Char} (hpre : ¬ AtLineStart pre) (hc : c ≠ 'i' ∧ c ≠ 'r') :
      importPattern.Unmatched pre [c] rest :=
    unmatched_singleton (matchAt_eq_none_of_head hpre (by rintro _ ⟨⟩; exact hc))
  rcases form.tail_eq with htail | htail <;> rw [htail]
  · exact hmark hpre (by decide)
  · exact (hmark hpre (by decide)).append (hmark (not_atLineStart_append (by decide) (by decide) pre) (by decide))

end Checkup
