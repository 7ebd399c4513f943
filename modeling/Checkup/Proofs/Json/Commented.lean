import Checkup.Proofs.Json.Lenient

/-!
# What the lenient reader accepts

`Commented Allowed behind ks t` says that the text is made of the tokens, with blanks and closed comments between
them and at most one trailing comma in front of each closing bracket. `Allowed` says which liberties the text may take
besides: with none it is JSON with comments, and the lenient reader takes what has any of them.

* `exists_starts`: what the first step does at the start of a text, behind the block comments there.
* `decorated_of_commented`, `commented_of_decorated`: the texts of which the first step leaves lexemes and blanks.
* `decorated_of_stripCommas`: the texts of which the second step leaves lexemes and blanks.
* `parseTree_bind_eq_some_iff`: the main result.
-/

namespace Checkup.Json

variable {s t u l l' r w b : Text} {c : Char} {k : Token} {ks : List Token} {ls : List Text} {ps : List Piece}

/-! ## Lexemes -/

theorem Laid.space (hc : isSpace c = true) (h : Laid ks t) : Laid ks (c :: t) := by
  cases h with
  | nil hw => exact .nil (hw.cons hc)
  | cons hw hl ht => exact .cons (hw.cons hc) hl ht

/-- A text that has tokens is made of their written forms. -/
theorem laid_of_tokensOnto {done : List Token} (h : tokensOnto done s = some ks) :
    ∃ ks', ks = done.reverse ++ ks' ∧ Laid ks' s := by
  fun_induction tokensOnto done s with
  | case1 => exact ⟨[], by simpa using h.symm, .nil isGap_nil⟩
  | case2 done c t hc ih =>
    obtain ⟨ks', hks, hlaid⟩ := ih h
    exact ⟨ks', hks, hlaid.space hc⟩
  | case3 => cases h
  | case4 done c t hc k r hread ih =>
    obtain ⟨ks', rfl, hlaid⟩ := ih h
    obtain ⟨l, hl, heq⟩ := Token.spells_of_read hread
    exact ⟨k :: ks', by simp, heq ▸ .cons isGap_nil hl hlaid⟩

namespace Token

/-- Whether the token starts an array or object. -/
def IsOpening : Token → Prop
  | openBrace => True
  | openBracket => True
  | _ => False

theorem isClosing_iff_spells (h : Spells l k) : k.IsClosing ↔ l = [']'] ∨ l = ['\x7d'] := by
  constructor
  · intro hk
    cases h with
    | closeBrace => exact Or.inr rfl
    | closeBracket => exact Or.inl rfl
    | _ => exact absurd hk id
  · intro hl
    by_contra hk
    obtain ⟨c, rest, rfl, hstart⟩ := h.head
    obtain ⟨hbrace, hbracket⟩ := hstart.not_closing hk
    rcases hl with hl | hl
    · exact hbracket (List.cons.inj hl).1
    · exact hbrace (List.cons.inj hl).1

/-- The characters behind the first one of a word or numeral. -/
structure IsInner (c : Char) : Prop where
  ne_quote : c ≠ '\"'
  ne_slash : c ≠ '/'
  ne_comma : c ≠ ','
  not_blank : c.isBlank = false
  not_closing : c ≠ '\x7d' ∧ c ≠ ']'

theorem isInner_of_isMark (h : Numeral.IsMark c) : IsInner c := by
  obtain ⟨hslash, hcomma, hquote⟩ := Lenient.ne_of_isMark h
  rcases h with h | h
  · refine ⟨hquote, hslash, hcomma, isBlank_of_isDigit h, ?_, ?_⟩ <;> (rintro rfl; cases h)
  · simp only [List.mem_cons, List.not_mem_nil, or_false] at h
    rcases h with rfl | rfl | rfl | rfl | rfl <;> exact ⟨by decide, by decide, by decide, by decide, by decide⟩

theorem Spells.inner (h : Spells (c :: l) k) (hc : c ≠ '\"') : ∀ d ∈ l, IsInner d := by
  have hletter : ∀ d ∈ ['u', 'l', 'r', 'e', 'a', 's'], IsInner d := by
    intro d hd
    simp only [List.mem_cons, List.not_mem_nil, or_false] at hd
    rcases hd with rfl | rfl | rfl | rfl | rfl | rfl <;> exact ⟨by decide, by decide, by decide, by decide, by decide⟩
  cases h with
  | string => exact absurd rfl hc
  | numeral hn => exact fun d hd => isInner_of_isMark (hn.isMark d (List.mem_cons_of_mem _ hd))
  | null => exact fun d hd => hletter d (by revert d; decide)
  | true => exact fun d hd => hletter d (by revert d; decide)
  | false => exact fun d hd => hletter d (by revert d; decide)
  | _ => simp

theorem Spells.ne_slash (h : Spells (c :: l) k) : c ≠ '/' := by
  obtain ⟨c', rest, heq, hstart⟩ := h.head
  obtain ⟨rfl, rfl⟩ := List.cons.inj heq
  rintro rfl
  cases k with
  | bool b => cases b <;> cases hstart
  | numeral n => exact absurd hstart (by simp [IsStart])
  | _ => cases hstart

end Token

namespace Lenient

/-! ## Texts with comments -/

/-- Block comments, one right behind the other. -/
inductive Blocks : Text → Prop where
  | nil : Blocks []
  | block {body t : Text} : ¬ ['*', '/'] <:+: body → Blocks t → Blocks ('/' :: '*' :: (body ++ '*' :: '/' :: t))

/-- The second text is the first one with block comments in front of its characters. -/
inductive Broken : Text → Text → Prop where
  | nil : Broken [] []
  | cons {w l l' : Text} {c : Char} : Blocks w → Broken l l' → Broken (c :: l) (w ++ c :: l')

/-- What the lenient reader takes besides JSON with comments. -/
inductive Liberty where
  /-- a block comment that goes on to the end of the text -/
  | unclosed
  /-- block comments between the characters of a word or numeral -/
  | interrupted
  /-- a comma alone in an array or object -/
  | bareComma

/-- How a token is written in a text with comments. -/
inductive Written (Allowed : Liberty → Prop) : Text → Token → Prop where
  | whole {l : Text} {k : Token} : k.Spells l → Written Allowed l k
  | interrupted {c : Char} {l l' : Text} {k : Token} :
      Allowed .interrupted → c ≠ '\"' → k.Spells (c :: l) → Broken l l' → Written Allowed (c :: l') k

/-- The text is made of the tokens, with blanks and comments around them and trailing commas; `behind` is the token in
front of them. -/
inductive Commented (Allowed : Liberty → Prop) : (behind : Option Token) → List Token → Text → Prop where
  | nil {behind : Option Token} {w : Text} : LastTrivia w → Commented Allowed behind [] w
  | unclosed {behind : Option Token} {w body : Text} :
      Allowed .unclosed → Trivia w → ¬ ['*', '/'] <:+: body → Commented Allowed behind [] (w ++ '/' :: '*' :: body)
  | token {behind : Option Token} {k : Token} {ks : List Token} {w l t : Text} :
      Trivia w → Written Allowed l k → Commented Allowed (some k) ks t →
      Commented Allowed behind (k :: ks) (w ++ (l ++ t))
  | comma {behind : Option Token} {k : Token} {ks : List Token} {w w' l t : Text} :
      (∀ o ∈ behind, o.IsOpening → Allowed .bareComma) → k.IsClosing →
      Trivia w → Trivia w' → Written Allowed l k → Commented Allowed (some k) ks t →
      Commented Allowed behind (k :: ks) (w ++ ',' :: (w' ++ (l ++ t)))

variable {Allowed : Liberty → Prop} {behind : Option Token}

theorem Trivia.append (hw : Trivia w) (hr : Trivia r) : Trivia (w ++ r) := by
  induction hw with
  | nil => exact hr
  | space hc _ ih => exact .space hc ih
  | line hbody _ ih => simpa using .line hbody ih
  | block hbody _ ih => simpa using .block hbody ih

theorem Blocks.trivia (h : Blocks w) : Trivia w := by
  induction h with
  | nil => exact .nil
  | block hbody _ ih => exact .block hbody ih

/-! ## What the first step leaves -/

theorem stripComments_blocks (h : Blocks w) : stripComments .code (w ++ r) = stripComments .code r := by
  induction h with
  | nil => rfl
  | block hbody _ ih =>
    simp only [List.cons_append, List.append_assoc, stripComments, (stripComments_blockComment hbody).2, ih]

theorem stripComments_broken (h : Broken l l') (hl : ∀ c ∈ l, c ≠ '/' ∧ c ≠ '\"') :
    stripComments .code (l' ++ r) = l ++ stripComments .code r := by
  induction h with
  | nil => rfl
  | @cons w l l' c hw _ ih =>
    obtain ⟨hslash, hquote⟩ := hl c (by simp)
    rw [List.append_assoc, stripComments_blocks hw, List.cons_append, stripComments_keeps.char hslash hquote,
      ih fun d hd => hl d (by simp [hd]), List.cons_append]

theorem stripComments_written (h : Written Allowed l' k) :
    ∃ l, k.Spells l ∧ ∀ r, stripComments .code (l' ++ r) = l ++ stripComments .code r := by
  cases h with
  | whole hl => exact ⟨l', hl, fun r => stripComments_keeps.lexeme (Or.inl rfl) hl⟩
  | @interrupted c l l' _ _ hquote hl hbroken =>
    refine ⟨c :: l, hl, fun r => ?_⟩
    have hinner := fun d hd => (hl.inner hquote d hd)
    rw [List.cons_append, stripComments_keeps.char hl.ne_slash hquote,
      stripComments_broken hbroken fun d hd => ⟨(hinner d hd).ne_slash, (hinner d hd).ne_quote⟩, List.cons_append]

/-- The first step leaves the lexemes, blanks and the trailing commas. -/
theorem decorated_of_commented (h : Commented Allowed behind ks t) :
    ∃ ls, List.Forall₂ (fun l k => Token.Spells l k) ls ks ∧ Decorated IsGap IsGap ls (stripComments .code t) := by
  induction h with
  | nil hw => exact ⟨[], .nil, .nil (stripComments_lastTrivia hw)⟩
  | unclosed _ hw hbody =>
    obtain ⟨w', hw', heq⟩ := stripComments_trivia hw
    refine ⟨[], .nil, .nil ?_⟩
    rwa [heq, stripComments, (stripComments_blockComment (t := []) hbody).1, List.append_nil]
  | token hw hl _ ih =>
    obtain ⟨ls, hls, ht⟩ := ih
    obtain ⟨w', hw', hgap⟩ := stripComments_trivia hw
    obtain ⟨l, hspells, hlexeme⟩ := stripComments_written hl
    refine ⟨l :: ls, .cons hspells hls, ?_⟩
    rw [hgap, hlexeme]
    exact .lexeme hw' ht
  | comma _ hk hw₁ hw₂ hl _ ih =>
    obtain ⟨ls, hls, ht⟩ := ih
    obtain ⟨w₁', hw₁', hgap₁⟩ := stripComments_trivia hw₁
    obtain ⟨w₂', hw₂', hgap₂⟩ := stripComments_trivia hw₂
    obtain ⟨l, hspells, hlexeme⟩ := stripComments_written hl
    refine ⟨l :: ls, .cons hspells hls, ?_⟩
    rw [hgap₁, stripComments_keeps.char (by decide) (by decide), hgap₂, hlexeme]
    exact .comma hw₁' hw₂' ((Token.isClosing_iff_spells hspells).mp hk) ht

/-! ## What the first step leaves it of -/

/-- The first end of a block comment. -/
theorem exists_first_end (h : ['*', '/'] <:+: u) :
    ∃ body t, ¬ ['*', '/'] <:+: body ∧ u = body ++ '*' :: '/' :: t := by
  induction u with
  | nil => simp at h
  | cons c u ih =>
    by_cases hhere : ['*', '/'] <+: c :: u
    · obtain ⟨t, ht⟩ := hhere
      exact ⟨[], t, by simp, ht.symm⟩
    · obtain ⟨body, t, hbody, rfl⟩ := ih ((List.infix_cons_iff.mp h).resolve_left hhere)
      refine ⟨c :: body, t, fun hinfix => ?_, rfl⟩
      rcases List.infix_cons_iff.mp hinfix with hstart | hbehind
      · exact hhere (hstart.trans (List.prefix_append (c :: body) _))
      · exact hbody hbehind

/-- A text at whose start no closed block comment stands, and what the first step leaves of it. -/
inductive Starts : Text → Text → Prop where
  | nil : Starts [] []
  | char {c : Char} {t : Text} : Starts (c :: t) (c :: stripComments (if c = '\"' then .quoted else .code) t)
  | line {body t : Text} : '\n' ∉ body → Starts ('/' :: '/' :: (body ++ '\n' :: t)) ('\n' :: stripComments .code t)
  | lastLine {body : Text} : '\n' ∉ body → Starts ('/' :: '/' :: body) []
  | unclosed {body : Text} : ¬ ['*', '/'] <:+: body → Starts ('/' :: '*' :: body) []

theorem exists_starts (t : Text) : ∃ w u, Blocks w ∧ t = w ++ u ∧ Starts u (stripComments .code t) := by
  match t with
  | [] => exact ⟨[], [], .nil, rfl, .nil⟩
  | c :: t =>
    by_cases hline : ∃ t', c = '/' ∧ t = '/' :: t'
    · obtain ⟨t, rfl, rfl⟩ := hline
      refine ⟨[], _, .nil, rfl, ?_⟩
      by_cases hbreak : '\n' ∈ t
      · obtain ⟨body, t', rfl, hbody⟩ := List.eq_append_cons_of_mem hbreak
        rw [stripComments, (stripComments_lineComment hbody).2]
        exact .line hbody
      · rw [stripComments, (stripComments_lineComment (t := []) hbreak).1]
        exact .lastLine hbreak
    by_cases hblock : ∃ t', c = '/' ∧ t = '*' :: t'
    · obtain ⟨t, rfl, rfl⟩ := hblock
      by_cases hend : ['*', '/'] <:+: t
      · obtain ⟨body, t', hbody, rfl⟩ := exists_first_end hend
        obtain ⟨w, u, hw, rfl, hu⟩ := exists_starts t'
        refine ⟨_, u, .block hbody hw, by simp, ?_⟩
        rwa [stripComments, (stripComments_blockComment hbody).2]
      · refine ⟨[], _, .nil, rfl, ?_⟩
        rw [stripComments, (stripComments_blockComment (t := []) hend).1]
        exact .unclosed hend
    refine ⟨[], c :: t, .nil, rfl, ?_⟩
    rw [stripComments]
    · exact .char
    · exact fun t' hc ht => hline ⟨t', hc, ht⟩
    · exact fun t' hc ht => hblock ⟨t', hc, ht⟩
termination_by t.length

/-- What the first step leaves of blanks and comments. -/
theorem exists_trivia (hw : IsGap w) (h : stripComments .code t = w ++ r) :
    ∃ w' t', Trivia w' ∧ t = w' ++ t' ∧ stripComments .code t' = r := by
  induction w generalizing t with
  | nil => exact ⟨[], t, .nil, rfl, h⟩
  | cons c w ih =>
    have hc : isSpace c = true := hw c (by simp)
    have hrest : IsGap w := fun d hd => hw d (by simp [hd])
    obtain ⟨v, u, hv, rfl, hu⟩ := exists_starts t
    generalize stripComments .code (v ++ u) = s at h hu
    cases hu with
    | @char d u =>
      obtain ⟨rfl, hleft⟩ := List.cons.inj h
      have hquote : d ≠ '\"' := by rintro rfl; cases hc
      rw [if_neg hquote] at hleft
      obtain ⟨w', t', hw', rfl, ht'⟩ := ih hrest hleft
      exact ⟨v ++ d :: w', t', hv.trivia.append (.space hc hw'), by simp, ht'⟩
    | @line body u hbody =>
      obtain ⟨rfl, hleft⟩ := List.cons.inj h
      obtain ⟨w', t', hw', rfl, ht'⟩ := ih hrest hleft
      exact ⟨v ++ '/' :: '/' :: (body ++ '\n' :: w'), t', hv.trivia.append (.line hbody hw'), by simp, ht'⟩
    | nil => cases h
    | lastLine => cases h
    | unclosed => cases h

/-- What the first step leaves of the end of a text. -/
theorem commented_of_stripComments_eq_nil (h : stripComments .code t = []) (hw : Trivia w) :
    Commented (fun _ => True) behind [] (w ++ t) := by
  obtain ⟨v, u, hv, rfl, hu⟩ := exists_starts t
  have hlead : Trivia (w ++ v) := hw.append hv.trivia
  generalize stripComments .code (v ++ u) = s at h hu
  rw [← List.append_assoc]
  cases hu with
  | nil => simpa using Commented.nil (.closed hlead)
  | lastLine hbody => exact .nil (.line hlead hbody)
  | unclosed hbody => exact .unclosed trivial hlead hbody
  | char => cases h
  | line => cases h

/-- The first step keeps a character outside of strings, and block comments may stand in front of it. -/
theorem exists_char (hc : c ≠ '\n') (h : stripComments .code t = c :: r) :
    ∃ w t', Blocks w ∧ t = w ++ c :: t' ∧ stripComments (if c = '\"' then .quoted else .code) t' = r := by
  obtain ⟨w, u, hw, rfl, hu⟩ := exists_starts t
  generalize stripComments .code (w ++ u) = s at h hu
  cases hu with
  | @char d u =>
    obtain ⟨rfl, hleft⟩ := List.cons.inj h
    exact ⟨w, u, hw, rfl, hleft⟩
  | line => exact absurd (List.cons.inj h).1.symm hc
  | nil => cases h
  | lastLine => cases h
  | unclosed => cases h

theorem exists_broken (hl : ∀ c ∈ l, Token.IsInner c) (h : stripComments .code t = l ++ r) :
    ∃ l' t', Broken l l' ∧ t = l' ++ t' ∧ stripComments .code t' = r := by
  induction l generalizing t with
  | nil => exact ⟨[], t, .nil, rfl, h⟩
  | cons c l ih =>
    have hc := hl c (by simp)
    have hbreak : c ≠ '\n' := by
      rintro rfl
      exact absurd hc.not_blank (by decide)
    obtain ⟨w, u, hw, rfl, hu⟩ := exists_char hbreak h
    rw [if_neg hc.ne_quote] at hu
    obtain ⟨l', t', hl', rfl, ht'⟩ := ih (fun d hd => hl d (by simp [hd])) hu
    exact ⟨w ++ c :: l', t', .cons hw hl', by simp, ht'⟩

/-! ## Quoted text -/

section

variable {code quoted : Text → Text} {special : Char}

/-- A text inside quotes, and what a step leaves of it. -/
inductive Quoted (code quoted : Text → Text) : Text → Text → Prop where
  | nil : Quoted code quoted [] []
  | lone : Quoted code quoted ['\\'] ['\\']
  | escape {c : Char} {t : Text} : Quoted code quoted ('\\' :: c :: t) ('\\' :: c :: quoted t)
  | closing {t : Text} : Quoted code quoted ('\"' :: t) ('\"' :: code t)
  | inside {c : Char} {t : Text} : c ≠ '\\' → c ≠ '\"' → Quoted code quoted (c :: t) (c :: quoted t)

/-- A step that keeps quoted text, also an end of it without a quote. -/
structure KeepsAll (code quoted : Text → Text) (special : Char) : Prop extends Keeps code quoted special where
  nil : quoted [] = []
  lone : quoted ['\\'] = ['\\']

theorem KeepsAll.read (h : KeepsAll code quoted special) (t : Text) : Quoted code quoted t (quoted t) := by
  cases t with
  | nil => rw [h.nil]; exact .nil
  | cons c t =>
    by_cases hback : c = '\\'
    · subst hback
      cases t with
      | nil => rw [h.lone]; exact .lone
      | cons c t => rw [h.escape]; exact .escape
    by_cases hquote : c = '\"'
    · subst hquote
      rw [h.closing]
      exact .closing
    rw [h.inside hback hquote]
    exact .inside hback hquote

theorem KeepsAll.exists_inside (h : KeepsAll code quoted special) (hback : c ≠ '\\') (hquote : c ≠ '\"')
    (ht : quoted t = c :: r) : ∃ t', t = c :: t' ∧ quoted t' = r := by
  have hread := h.read t
  generalize quoted t = s at hread ht
  cases hread with
  | nil => cases ht
  | lone => exact absurd (List.cons.inj ht).1.symm hback
  | escape => exact absurd (List.cons.inj ht).1.symm hback
  | closing => exact absurd (List.cons.inj ht).1.symm hquote
  | inside =>
    obtain ⟨rfl, hrest⟩ := List.cons.inj ht
    exact ⟨_, rfl, hrest⟩

theorem KeepsAll.exists_escape (h : KeepsAll code quoted special) (ht : quoted t = '\\' :: c :: r) :
    ∃ t', t = '\\' :: c :: t' ∧ quoted t' = r := by
  have hread := h.read t
  generalize quoted t = s at hread ht
  cases hread with
  | inside hback => exact absurd (List.cons.inj ht).1 hback
  | escape =>
    simp only [List.cons.injEq, true_and] at ht
    obtain ⟨rfl, hrest⟩ := ht
    exact ⟨_, rfl, hrest⟩
  | _ => cases ht

theorem KeepsAll.exists_closing (h : KeepsAll code quoted special) (ht : quoted t = '\"' :: r) :
    ∃ t', t = '\"' :: t' ∧ code t' = r := by
  have hread := h.read t
  generalize quoted t = s at hread ht
  cases hread with
  | inside _ hquote => exact absurd (List.cons.inj ht).1 hquote
  | closing => exact ⟨_, rfl, (List.cons.inj ht).2⟩
  | _ => cases ht

/-- What a step keeps of a string and its closing quote stood there. -/
theorem KeepsAll.exists_body (h : KeepsAll code quoted special) (hb : Body b ps) (ht : quoted t = b ++ '\"' :: r) :
    ∃ t', t = b ++ '\"' :: t' ∧ code t' = r := by
  induction hb generalizing t with
  | nil => exact h.exists_closing ht
  | unit hn _ ih =>
    simp only [hexUnit, bind, Option.bind_eq_some_iff] at hn
    obtain ⟨n₁, h₁, n₂, h₂, n₃, h₃, n₄, h₄, -⟩ := hn
    have pass : ∀ {d n u v}, hexValue d = some n → quoted u = d :: v → ∃ u', u = d :: u' ∧ quoted u' = v :=
      fun hd => h.exists_inside (ne_of_hexValue hd).1 (ne_of_hexValue hd).2
    obtain ⟨t₁, rfl, ht₁⟩ := h.exists_escape ht
    obtain ⟨t₂, rfl, ht₂⟩ := pass h₁ ht₁
    obtain ⟨t₃, rfl, ht₃⟩ := pass h₂ ht₂
    obtain ⟨t₄, rfl, ht₄⟩ := pass h₃ ht₃
    obtain ⟨t₅, rfl, ht₅⟩ := pass h₄ ht₄
    obtain ⟨t', rfl, ht'⟩ := ih ht₅
    exact ⟨t', rfl, ht'⟩
  | escape he _ ih =>
    obtain ⟨t₁, rfl, ht₁⟩ := h.exists_escape ht
    obtain ⟨t', rfl, ht'⟩ := ih ht₁
    exact ⟨t', rfl, ht'⟩
  | char _ hback hquote _ ih =>
    obtain ⟨t₁, rfl, ht₁⟩ := h.exists_inside hback hquote ht
    obtain ⟨t', rfl, ht'⟩ := ih ht₁
    exact ⟨t', rfl, ht'⟩

end

theorem stripComments_keepsAll : KeepsAll (stripComments .code) (stripComments .quoted) '/' where
  toKeeps := stripComments_keeps
  nil := rfl
  lone := rfl

theorem stripCommas_keepsAll : KeepsAll (stripCommas false) (stripCommas true) ',' where
  toKeeps := stripCommas_keeps
  nil := rfl
  lone := rfl

/-! ## What the first step leaves of lexemes -/

theorem exists_written (hk : k.Spells l) (h : stripComments .code t = l ++ r) :
    ∃ w l' t', Blocks w ∧ Written (fun _ => True) l' k ∧ t = w ++ (l' ++ t') ∧ stripComments .code t' = r := by
  obtain ⟨c, l, rfl, hstart⟩ := hk.head
  have hbreak : c ≠ '\n' := by
    rintro rfl
    exact absurd hstart.isBlank (by decide)
  rw [List.cons_append] at h
  obtain ⟨w, u, hw, rfl, hu⟩ := exists_char hbreak h
  by_cases hquote : c = '\"'
  · subst hquote
    cases hk with
    | @string b ps hb =>
      rw [if_pos rfl, List.append_assoc] at hu
      obtain ⟨t', rfl, ht'⟩ := stripComments_keepsAll.exists_body hb hu
      exact ⟨w, '\"' :: (b ++ ['\"']), t', hw, .whole (.string hb), by simp, ht'⟩
    | numeral hn => exact absurd rfl (ne_of_isMark (hn.isMark _ (by simp))).2.2
  · rw [if_neg hquote] at hu
    obtain ⟨l', t', hl', rfl, ht'⟩ := exists_broken (hk.inner hquote) hu
    exact ⟨w, c :: l', t', hw, .interrupted trivial hquote hk hl', rfl, ht'⟩

/-- Lexemes and blanks are what the first step leaves of a text that is made of the tokens, with every liberty. -/
theorem commented_of_decorated (h : Decorated IsGap IsGap ls (stripComments .code t))
    (hls : List.Forall₂ (fun l k => Token.Spells l k) ls ks) : Commented (fun _ => True) behind ks t := by
  generalize hs : stripComments .code t = s at h
  induction h generalizing t ks behind with
  | @nil w hw =>
    obtain rfl := List.forall₂_nil_left_iff.mp hls
    obtain ⟨v, t', hv, rfl, ht'⟩ := exists_trivia hw (hs.trans (List.append_nil w).symm)
    exact commented_of_stripComments_eq_nil ht' hv
  | lexeme hw _ ih =>
    obtain ⟨k, ks', hk, hls', rfl⟩ := List.forall₂_cons_left_iff.mp hls
    obtain ⟨v, u, hv, rfl, hu⟩ := exists_trivia hw hs
    obtain ⟨v', l', t', hv', hl', rfl, ht'⟩ := exists_written hk hu
    rw [← List.append_assoc]
    exact .token (hv.append hv'.trivia) hl' (ih hls' ht')
  | comma hw₁ hw₂ hclose _ ih =>
    obtain ⟨k, ks', hk, hls', rfl⟩ := List.forall₂_cons_left_iff.mp hls
    obtain ⟨v₁, u₁, hv₁, rfl, hu₁⟩ := exists_trivia hw₁ hs
    obtain ⟨b₁, u₂, hb₁, rfl, hu₂⟩ := exists_char (by decide) hu₁
    obtain ⟨v₂, u₃, hv₂, rfl, hu₃⟩ := exists_trivia hw₂ hu₂
    obtain ⟨b₂, l', t', hb₂, hl', rfl, ht'⟩ := exists_written hk hu₃
    have hsplit :
        v₁ ++ (b₁ ++ ',' :: (v₂ ++ (b₂ ++ (l' ++ t')))) = (v₁ ++ b₁) ++ ',' :: ((v₂ ++ b₂) ++ (l' ++ t')) := by simp
    rw [hsplit]
    exact .comma (fun _ _ _ => trivial) ((Token.isClosing_iff_spells hk).mpr hclose) (hv₁.append hb₁.trivia)
      (hv₂.append hb₂.trivia) hl' (ih hls' ht')

/-! ## What the second step leaves it of -/

/-- The second step keeps a character outside of strings, and a comma that it takes out may stand right in front. -/
theorem exists_comma (h : stripCommas false u = c :: r) :
    ∃ u', (u = c :: u' ∨ u = ',' :: c :: u' ∧ closesNext (c :: u') = true) ∧ stripCommas (c = '\"') u' = r := by
  have hkept : ∀ {d v}, ¬ (d = ',' ∧ closesNext v = true) → stripCommas false (d :: v) = c :: r →
      d = c ∧ stripCommas (c = '\"') v = r := by
    intro d v hd hv
    rw [stripCommas, if_neg (by simpa using hd)] at hv
    obtain ⟨rfl, hrest⟩ := List.cons.inj hv
    exact ⟨rfl, hrest⟩
  cases u with
  | nil => cases h
  | cons d u =>
    by_cases hd : d = ',' ∧ closesNext u = true
    · obtain ⟨rfl, hnext⟩ := hd
      rw [stripCommas, if_pos (by simp [hnext])] at h
      cases u with
      | nil => cases h
      | cons e u =>
        have he : ¬ (e = ',' ∧ closesNext u = true) := by
          rintro ⟨rfl, -⟩
          cases hnext
        obtain ⟨rfl, hrest⟩ := hkept he h
        exact ⟨u, Or.inr ⟨rfl, hnext⟩, hrest⟩
    · obtain ⟨rfl, hrest⟩ := hkept hd h
      exact ⟨u, Or.inl rfl, hrest⟩

theorem eq_nil_of_stripCommas (h : stripCommas false u = []) : u = [] := by
  induction u with
  | nil => rfl
  | cons c u ih =>
    rw [stripCommas] at h
    split at h
    · rename_i hdrop
      obtain rfl := ih h
      simp [closesNext] at hdrop
    · cases h

theorem exists_gap (hw : IsGap w) (h : stripCommas false u = w ++ r) :
    ∃ u', (u = w ++ u' ∨ ∃ w₁ w₂, w = w₁ ++ w₂ ∧ u = w₁ ++ ',' :: (w₂ ++ u') ∧ closesNext u' = true) ∧
      stripCommas false u' = r := by
  induction w generalizing u with
  | nil => exact ⟨u, Or.inl rfl, h⟩
  | cons c w ih =>
    have hc : isSpace c = true := hw c (by simp)
    have hrest : IsGap w := fun d hd => hw d (by simp [hd])
    have hquote : c ≠ '\"' := by rintro rfl; cases hc
    obtain ⟨v, hv, hleft⟩ := exists_comma h
    rw [decide_eq_false hquote] at hleft
    obtain ⟨u', hu', hend⟩ := ih hrest hleft
    refine ⟨u', ?_, hend⟩
    have hskip : closesNext (c :: v) = closesNext v := closesNext_gap (w := [c]) (isGap_nil.cons hc)
    rcases hv with rfl | ⟨rfl, hnext⟩ <;> rcases hu' with rfl | ⟨w₁, w₂, rfl, rfl, hclose⟩
    · exact Or.inl rfl
    · exact Or.inr ⟨c :: w₁, w₂, rfl, rfl, hclose⟩
    · rw [hskip, closesNext_gap hrest] at hnext
      exact Or.inr ⟨[], c :: w, rfl, rfl, hnext⟩
    · -- the comma in front would have another comma behind it
      have hrest₁ : IsGap w₁ := fun d hd => hrest d (by simp [hd])
      rw [hskip, closesNext_gap hrest₁] at hnext
      cases hnext

theorem exists_inner (hl : ∀ c ∈ l, Token.IsInner c) (h : stripCommas false u = l ++ r) :
    ∃ u', u = l ++ u' ∧ stripCommas false u' = r := by
  induction l generalizing u with
  | nil => exact ⟨u, rfl, h⟩
  | cons c l ih =>
    have hc := hl c (by simp)
    obtain ⟨v, hv, hleft⟩ := exists_comma h
    rw [decide_eq_false hc.ne_quote] at hleft
    obtain ⟨u', rfl, hu'⟩ := ih (fun d hd => hl d (by simp [hd])) hleft
    rcases hv with rfl | ⟨-, hnext⟩
    · exact ⟨u', rfl, hu'⟩
    · rw [closesNext_cons hc.not_blank] at hnext
      simp [hc.not_closing] at hnext

theorem isClosing_of_closesNext (hk : k.Spells l) (h : closesNext (l ++ t) = true) : k.IsClosing := by
  by_contra hclosing
  obtain ⟨c, rest, rfl, hstart⟩ := hk.head
  rw [List.cons_append, closesNext_cons hstart.isBlank] at h
  simp [hstart.not_closing hclosing] at h

theorem exists_lexeme (hk : k.Spells l) (h : stripCommas false u = l ++ r) :
    ∃ u', (u = l ++ u' ∨ u = ',' :: (l ++ u') ∧ k.IsClosing) ∧ stripCommas false u' = r := by
  obtain ⟨c, l, rfl, hstart⟩ := hk.head
  rw [List.cons_append] at h
  obtain ⟨v, hv, hleft⟩ := exists_comma h
  obtain ⟨u', rfl, hu'⟩ : ∃ u', v = l ++ u' ∧ stripCommas false u' = r := by
    by_cases hquote : c = '\"'
    · subst hquote
      cases hk with
      | string hb =>
        rw [List.append_assoc] at hleft
        obtain ⟨u', rfl, hu'⟩ := stripCommas_keepsAll.exists_body hb hleft
        exact ⟨u', by simp, hu'⟩
      | numeral hn => exact absurd rfl (ne_of_isMark (hn.isMark _ (by simp))).2.2
    · rw [decide_eq_false hquote] at hleft
      exact exists_inner (hk.inner hquote) hleft
  refine ⟨u', ?_, hu'⟩
  rcases hv with rfl | ⟨rfl, hnext⟩
  · exact Or.inl rfl
  · exact Or.inr ⟨rfl, isClosing_of_closesNext hk hnext⟩

/-- Lexemes and blanks are what the second step leaves of these with trailing commas. -/
theorem decorated_of_stripCommas (h : Laid ks (stripCommas false u)) :
    ∃ ls, List.Forall₂ (fun l k => Token.Spells l k) ls ks ∧ Decorated IsGap IsGap ls u := by
  generalize hs : stripCommas false u = s at h
  induction h generalizing u with
  | @nil w hw =>
    obtain ⟨u', hu', hnil⟩ := exists_gap hw (hs.trans (List.append_nil w).symm)
    obtain rfl := eq_nil_of_stripCommas hnil
    rcases hu' with rfl | ⟨-, -, -, -, hnext⟩
    · rw [List.append_nil]
      exact ⟨[], .nil, .nil hw⟩
    · cases hnext
  | @cons k ks w l t hw hl _ ih =>
    obtain ⟨v, hv, hgap⟩ := exists_gap hw hs
    obtain ⟨u', hu', hlexeme⟩ := exists_lexeme hl hgap
    obtain ⟨ls, hls, ht⟩ := ih hlexeme
    refine ⟨l :: ls, .cons hl hls, ?_⟩
    have hclose := Token.isClosing_iff_spells hl
    rcases hv with rfl | ⟨w₁, w₂, rfl, rfl, hnext⟩ <;> rcases hu' with rfl | ⟨rfl, hk⟩
    · exact .lexeme hw ht
    · exact .comma hw isGap_nil (hclose.mp hk) ht
    · have hw₁ : IsGap w₁ := fun c hc => hw c (by simp [hc])
      have hw₂ : IsGap w₂ := fun c hc => hw c (by simp [hc])
      exact .comma hw₁ hw₂ (hclose.mp (isClosing_of_closesNext hl hnext)) ht
    · cases hnext

/-! ## What is accepted -/

/-- The tokens of a text with comments are those that the lenient reader gets. -/
theorem tokens_of_commented {v : Tree} (h : Commented Allowed behind ks t) (hv : Tree.ofTokens ks = some v) :
    tokens (plain t) = some ks := by
  obtain ⟨ls, hls, hdecorated⟩ := decorated_of_commented h
  have horderly := Tree.orderly_of_ofTokens hv
  exact tokens_of_laid (stripCommas_decorated hdecorated hls horderly) horderly

/-- **What the lenient reader accepts.** It takes a text if and only if the text is JSON with comments, but for block
comments that are not closed or stand inside a word or numeral and for commas alone in an array or object; and what
it reads is what the tokens say. -/
theorem parseTree_bind_eq_some_iff {α : Type*} {read : Tree → Option α} {a : α} :
    (Lenient.parseTree t).bind read = some a ↔
      ∃ ks v, Tree.ofTokens ks = some v ∧ read v = some a ∧ Commented (fun _ => True) none ks t := by
  constructor
  · intro h
    obtain ⟨v, htree, hread⟩ := Option.bind_eq_some_iff.mp h
    obtain ⟨ks, htokens, hv⟩ := Option.bind_eq_some_iff.mp htree
    obtain ⟨ks', rfl, hlaid⟩ := laid_of_tokensOnto htokens
    obtain ⟨ls, hls, hdecorated⟩ := decorated_of_stripCommas hlaid
    exact ⟨_, v, hv, hread, commented_of_decorated hdecorated hls⟩
  · rintro ⟨ks, v, hv, hread, ht⟩
    rw [parseTree, Tree.parse, tokens_of_commented ht hv, Option.bind_some, hv, Option.bind_some, hread]

example : (Lenient.parseTree "[,]".toList).isSome = true ∧ (Lenient.parseTree "1 /* 2".toList).isSome = true := by
  decide +kernel

/-- The numeral 12. -/
def twelve : Numeral := ⟨false, ['1', '2'], [], none⟩

/-- The two digits with a comment between them. -/
def interruptedText : Text := "1/**/2".toList

theorem laid_twelve : Laid [.numeral twelve] (plain interruptedText) := by
  have hplain : plain interruptedText = [] ++ (['1', '2'] ++ []) := by decide +kernel
  have hwhole : Numeral.IsWhole ['1', '2'] := ⟨⟨by simp, by decide⟩, by simp⟩
  rw [hplain]
  exact .cons isGap_nil (.numeral (.mk false hwhole .absent .absent)) (.nil isGap_nil)

theorem eq_of_spells_twelve (h : Token.Spells l (.numeral twelve)) : l = ['1', '2'] := by
  cases h with
  | numeral hn =>
    obtain ⟨_, -, hf, hx⟩ := hn
    cases hx
    cases hf with
    | absent => rfl
    | present hds => exact absurd rfl hds.ne_nil

/-- The two digits make one numeral, though the comment separates them. -/
theorem parseTree_interrupted :
    Lenient.parseTree interruptedText = some (.numeral twelve) ∧
      ¬ ∃ ks v, Tree.ofTokens ks = some v ∧ Commented (fun _ => False) none ks interruptedText := by
  refine ⟨Tree.parse_of_laid laid_twelve, ?_⟩
  rintro ⟨ks, v, hv, h⟩
  obtain rfl : ks = [.numeral twelve] := by
    have htokens := tokens_of_commented h hv
    rw [tokens_of_laid laid_twelve (by simp [Token.Orderly, Token.Follows])] at htokens
    exact (Option.some.inj htokens).symm
  generalize ht : interruptedText = t at h
  cases h with
  | @token _ _ _ w l t hw hl =>
    cases hl with
    | whole hl =>
      have hwhole : ['1', '2'] <:+: interruptedText := ⟨w, t, by rw [ht, eq_of_spells_twelve hl, List.append_assoc]⟩
      exact absurd hwhole (by decide)
    | interrupted hallowed => exact hallowed
  | comma _ hk => exact hk

end Lenient

end Checkup.Json
