import Mathlib.Data.List.Chain
import Mathlib.Data.List.TakeWhile
import Checkup.Proofs.Pattern.Head
import Checkup.Proofs.Text.Bracket
import Checkup.Proofs.Text.Piece
import Checkup.Rule.Await

/-!
# Loops and awaits in a text

* `AwaitAt`: the keyword `await` stands at an offset. The offsets are those of the search (`mem_awaits_iff`).
* `IsLoop`: a loop with its offsets, given by the parts of the text. The loops are those that the rule takes into
  account (`mem_loopBodies_iff`).

Neither search passes over anything, as no match of either pattern starts within another one.
-/

namespace Checkup

open Pattern
open Cursor (behind)

variable {content pre w post lead body : Text} {g : Marks} {m : Match} {b : LoopBody}

/-! ## The keyword -/

/-- Whether the keyword `await` stands at an offset, as a word of its own. -/
def AwaitAt (content : Text) (offset : Nat) : Prop :=
  ∃ before rest, content = before ++ ("await".toList ++ rest) ∧ offset = Text.byteSize before ∧
    before.getLast?.any Char.isWord = false ∧ rest.head?.any Char.isWord = false

theorem awaitKeyword_takes_iff : awaitKeyword.Takes pre w post [] g ↔
    w = "await".toList ∧ g = [] ∧ pre.getLast?.any Char.isWord = false ∧ post.head?.any Char.isWord = false := by
  constructor
  · rintro ⟨_, _, _, rfl, ⟨_, _, _, rfl, ⟨rfl, rfl, hbefore⟩, hword⟩, ⟨rfl, rfl, hbehind⟩⟩
    obtain rfl := groupless_takes rfl hword
    obtain rfl := literal_takes hword
    refine ⟨rfl, rfl, (atWordBoundary_before (by decide) _ _).mp hbefore, ?_⟩
    exact (atWordBoundary_behind (w := [] ++ "await".toList) (by decide) _ _).mp hbehind
  · rintro ⟨rfl, rfl, hbefore, hbehind⟩
    refine ⟨"await".toList, [], [], rfl,
      ⟨[], "await".toList, [], rfl, ⟨rfl, rfl, ?_⟩, takes_literal _ _ _ _⟩, rfl, rfl, ?_⟩
    · exact (atWordBoundary_before (by decide) _ _).mpr hbefore
    · exact (atWordBoundary_behind (by decide) _ _).mpr hbehind

/-- Within the keyword no word starts. -/
theorem awaitKeyword_unoverlapped : awaitKeyword.Unoverlapped := by
  refine unoverlapped_of_word fun pre w post g htakes => ?_
  obtain ⟨rfl, _, hbefore, _⟩ := awaitKeyword_takes_iff.mp htakes
  exact ⟨hbefore, "await".toList, [], rfl, by decide, by decide, List.forall_mem_nil _⟩

/-- **The keywords of a text** are those that the search finds. -/
theorem mem_awaits_iff {offset : Nat} :
    offset ∈ (awaitKeyword.findAll content).map (fun m => m.start) ↔ AwaitAt content offset := by
  simp only [List.mem_map, mem_findAll_iff awaitKeyword_unoverlapped (by decide)]
  constructor
  · rintro ⟨m, ⟨before, rest, rfl, hm⟩, rfl⟩
    obtain ⟨w, post, g, hof⟩ := matchAt_of hm
    obtain ⟨rfl, _, hbefore, hbehind⟩ := awaitKeyword_takes_iff.mp hof.takes
    exact ⟨before, post, hof.text_eq, start_of_matchAt hm, hbefore, hbehind⟩
  · rintro ⟨before, rest, rfl, rfl, hbefore, hbehind⟩
    have hsome : (awaitKeyword.matchAt (behind before ("await".toList ++ rest))).isSome :=
      isSome_matchAt_iff.mpr ⟨_, rest, [], rfl, awaitKeyword_takes_iff.mpr ⟨rfl, rfl, hbefore, hbehind⟩⟩
    obtain ⟨m, hm⟩ := Option.isSome_iff_exists.mp hsome
    exact ⟨m, ⟨before, _, rfl, hm⟩, start_of_matchAt hm⟩

/-! ## Heads of loops -/

/-- Whether the text is a keyword that starts a loop. -/
def IsLoopKeyword (t : Text) : Prop := t = "for".toList ∨ t = "while".toList

/-- Whether the text is `await`, with the blanks behind it. -/
def IsAwaitGap (t : Text) : Prop := ∃ gap, t = "await".toList ++ gap ∧ ∀ x ∈ gap, x.isBlank = true

theorem IsLoopKeyword.atWordBoundary {keyword : Text} (h : IsLoopKeyword keyword) (pre rest : Text) :
    (behind pre (keyword ++ rest)).atWordBoundary = true ↔ pre.getLast?.any Char.isWord = false := by
  rcases h with rfl | rfl
  · exact atWordBoundary_before (by decide) _ _
  · exact atWordBoundary_before (by decide) _ _

/-- What the head of a loop is made of, up to its parenthesis. -/
theorem loopHeader_takes (h : loopHeader.Takes pre w post [] g) :
    ∃ keyword gap each, w = keyword ++ (gap ++ (each ++ ['('])) ∧ IsLoopKeyword keyword ∧
      pre.getLast?.any Char.isWord = false ∧ (∀ x ∈ gap, x.isBlank = true) ∧
      (each = [] ∧ (captures g).lookup 2 = none ∨ IsAwaitGap each ∧ ((captures g).lookup 2).isSome) := by
  obtain ⟨_, _, _, rfl, ⟨rfl, rfl, hbefore⟩, keyword, _, _, rfl, ⟨g₁, hkeyword, rfl⟩, gap, _, _, rfl,
    ⟨hgap, rfl⟩, each, _, g₂, rfl, heach, hparen⟩ := h
  obtain rfl := literal_takes hparen
  obtain rfl := groupless_takes rfl hparen
  obtain rfl := groupless_takes rfl hkeyword
  have hword : IsLoopKeyword keyword := hkeyword.imp (fun h => literal_takes h) fun h => literal_takes h
  rw [List.append_assoc] at hbefore
  refine ⟨keyword, gap, each, rfl, hword, (hword.atWordBoundary _ _).mp hbefore, hgap, ?_⟩
  rcases heach with ⟨g₃, heach, rfl⟩ | ⟨rfl, rfl⟩
  · obtain ⟨_, gap', _, rfl, hawait, hgap', rfl⟩ := heach
    obtain rfl := literal_takes hawait
    exact Or.inr ⟨⟨gap', rfl, hgap'⟩, rfl⟩
  · exact Or.inl ⟨rfl, rfl⟩

/-- Where these parts stand there is a match. -/
theorem isSome_matchAt_loopHeader {before keyword gap : Text} (rest : Text) (hkeyword : IsLoopKeyword keyword)
    (hbefore : before.getLast?.any Char.isWord = false) (hgap : ∀ x ∈ gap, x.isBlank = true) :
    (loopHeader.matchAt (behind before (keyword ++ (gap ++ '(' :: rest)))).isSome := by
  have hboundary : (behind before (keyword ++ (gap ++ ['(']) ++ rest)).atWordBoundary = true := by
    rw [List.append_assoc]
    exact (hkeyword.atWordBoundary _ _).mpr hbefore
  refine isSome_matchAt_iff.mpr ⟨keyword ++ (gap ++ ['(']), rest, _, by simp, [], _, [], rfl, ⟨rfl, rfl, hboundary⟩,
    keyword, _, _, rfl, ⟨[], ?_, rfl⟩, gap, ['('], _, rfl, ⟨hgap, rfl⟩, [], ['('], _, rfl, Or.inr ⟨rfl, rfl⟩,
    takes_literal _ _ _ _⟩
  rcases hkeyword with rfl | rfl
  · exact Or.inl (takes_literal _ _ _ _)
  · exact Or.inr (takes_literal _ _ _ _)

/-- Whether no keyword can start at the second of two neighbours: they are in one word, or it starts no keyword. -/
def Joined (c x : Char) : Prop := c.isWord = true ∨ x ∉ ['f', 'w']

instance (c x : Char) : Decidable (Joined c x) := inferInstanceAs (Decidable (_ ∨ _))

theorem not_mem_of_isBlank {x : Char} (hx : x.isBlank = true) : x ∉ ['f', 'w'] := by
  intro hmem
  simp only [List.mem_cons, List.not_mem_nil, or_false] at hmem
  rcases hmem with rfl | rfl <;> cases hx

theorem isChain_joined_blanks {gap t : Text} (hgap : ∀ x ∈ gap, x.isBlank = true) (ht : t.IsChain Joined)
    (hhead : ∀ x ∈ t.head?, x ∉ ['f', 'w']) : (gap ++ t).IsChain Joined := by
  refine List.isChain_append.mpr ⟨?_, ht, fun c _ x hx => Or.inr (hhead x hx)⟩
  refine List.Pairwise.isChain (List.pairwise_of_forall_mem_list fun c _ x hx => Or.inr ?_)
  exact not_mem_of_isBlank (hgap x hx)

theorem isChain_joined_word {word t : Text} (hword : word.all Char.isWord = true) (ht : t.IsChain Joined) :
    (word ++ t).IsChain Joined := by
  rw [List.all_eq_true] at hword
  refine List.isChain_append.mpr ⟨?_, ht, fun c hc x _ => Or.inl (hword c (List.mem_of_mem_getLast? hc))⟩
  exact List.Pairwise.isChain (List.pairwise_of_forall_mem_list fun c hc x _ => Or.inl (hword c hc))

/-- Within the head of a loop no keyword starts. -/
theorem loopHeader_unoverlapped : loopHeader.Unoverlapped := by
  intro pre u v post g htakes hu hv
  refine Option.not_isSome_iff_eq_none.mp fun hsome => ?_
  have hchain : (u ++ v).IsChain Joined := by
    obtain ⟨keyword, gap, each, hw, hkeyword, _, hgap, heach⟩ := loopHeader_takes htakes
    rw [hw]
    refine isChain_joined_word ?_ ?_
    · rcases hkeyword with rfl | rfl <;> rfl
    have hparen : ∀ x ∈ ['('].head?, x ∉ ['f', 'w'] := fun x hx => by cases hx; decide
    rcases heach with ⟨rfl, _⟩ | ⟨⟨gap', rfl, hgap'⟩, _⟩
    · exact isChain_joined_blanks hgap (List.isChain_singleton _) hparen
    · refine isChain_joined_blanks hgap ?_ fun x hx => by cases hx; decide
      rw [List.append_assoc]
      exact isChain_joined_word rfl (isChain_joined_blanks hgap' (List.isChain_singleton _) hparen)
  obtain ⟨_, _, _, hsplit, hmatch⟩ := isSome_matchAt_iff.mp hsome
  obtain ⟨keyword, _, _, rfl, hkeyword, hbefore, _⟩ := loopHeader_takes hmatch
  rw [List.getLast?_append_of_ne_nil _ hu] at hbefore
  have hhead : v.head hv ∈ ['f', 'w'] := by
    have hfirst := congrArg List.head? hsplit
    rw [List.head?_append_of_ne_nil _ hv, List.head?_eq_some_head hv] at hfirst
    rcases hkeyword with rfl | rfl <;> rw [Option.some.inj hfirst] <;> decide
  rcases (List.isChain_append.mp hchain).2.2 _ (List.getLast_mem_getLast? hu) _ (List.head_mem_head? hv) with
    hword | hother
  · rw [List.getLast?_eq_some_getLast hu, Option.any_some, hword] at hbefore
    cases hbefore
  · exact hother hhead

/-! ## Bodies of loops -/

/-- Whether a text starts with a body of a loop: a block up to its closing brace, or a statement up to a semicolon, a
line feed or the end. -/
inductive StartsWithBody : (t body : Text) → Prop
  | block {inner post : Text} : Text.Balanced '\x7b' '\x7d' inner →
    StartsWithBody ('\x7b' :: (inner ++ '\x7d' :: post)) ('\x7b' :: inner)
  | statement {c : Char} {body post : Text} : c.isBlank = false → c ≠ '\x7b' →
    (∀ x ∈ c :: body, x ≠ ';' ∧ x ≠ '\n') → (∀ x ∈ post.head?, x = ';' ∨ x = '\n') →
    StartsWithBody (c :: body ++ post) (c :: body)

/-- Whether a text has a loop with the given offsets: a keyword that is a word of its own, a condition in parentheses
and a body, with blanks between them. -/
def IsLoop (content : Text) (b : LoopBody) : Prop :=
  ∃ before keyword gap condition lead rest body : Text,
    let front := before ++ (keyword ++ (gap ++ '(' :: (condition ++ ')' :: lead)))
    content = front ++ rest ∧ IsLoopKeyword keyword ∧ before.getLast?.any Char.isWord = false ∧
      (∀ x ∈ gap, x.isBlank = true) ∧ Text.Balanced '(' ')' condition ∧ (∀ x ∈ lead, x.isBlank = true) ∧
      StartsWithBody rest body ∧ b = ⟨Text.byteSize before, Text.byteSize front, Text.byteSize (front ++ body)⟩

theorem StartsWithBody.head_not_blank {t : Text} (h : StartsWithBody t body) : ∀ x ∈ t.head?, x.isBlank = false := by
  rintro x hx
  cases h with
  | block =>
    cases hx
    rfl
  | statement hc =>
    cases hx
    exact hc

namespace LoopBody

/-- The loop whose body starts with a text that does not start with a blank. -/
def ofRest (content : Text) (header start : Nat) : Text → Option LoopBody
  | [] => none
  | c :: t =>
    if c = '\x7b' then (Text.blockEnd content start).map (⟨header, start, ·⟩)
    else if c = ';' then none
    else
      let stop := (Text.find? (fun c => c == ';' || c == '\n') (c :: t)).getD (Text.byteSize (c :: t))
      some ⟨header, start, start + stop⟩

theorem ofHeader_eq (content : Text) (m : Match) :
    ofHeader content m = if (m.group? 2).isSome then none else (Text.blockEnd content (m.stop - 1)).bind fun close =>
      let rest := Text.dropBytes (close + 1) content
      ofRest content m.start (close + 1 + Text.indent rest) (Text.trimStart rest) := rfl

theorem ofRest_block {front t : Text} {header : Nat} :
    ofRest (front ++ '\x7b' :: t) header (Text.byteSize front) ('\x7b' :: t) = some b ↔
      ∃ body, StartsWithBody ('\x7b' :: t) body ∧ b = ⟨header, Text.byteSize front, Text.byteSize (front ++ body)⟩ := by
  rw [ofRest, if_pos rfl, Option.map_eq_some_iff]
  simp only [Text.blockEnd_eq_some_iff (show Text.closer? '\x7b' = some '\x7d' from rfl)]
  constructor
  · rintro ⟨_, ⟨inner, post, rfl, hinner, rfl⟩, rfl⟩
    exact ⟨_, .block hinner, rfl⟩
  · rintro ⟨_, hbody, rfl⟩
    cases hbody with
    | block hinner => exact ⟨_, ⟨_, _, rfl, hinner, rfl⟩, rfl⟩
    | statement _ hc => exact absurd rfl hc

theorem ofRest_statement {front t : Text} {c : Char} {header : Nat} (hblank : c.isBlank = false) (hbrace : c ≠ '\x7b')
    (hend : c ≠ ';') : ofRest (front ++ c :: t) header (Text.byteSize front) (c :: t) = some b ↔
      ∃ body, StartsWithBody (c :: t) body ∧ b = ⟨header, Text.byteSize front, Text.byteSize (front ++ body)⟩ := by
  have ends_iff (x : Char) : (x == ';' || x == '\n') = true ↔ x = ';' ∨ x = '\n' := by simp
  have stop_eq {body post : Text} (hbody : ∀ x ∈ body, x ≠ ';' ∧ x ≠ '\n')
      (hpost : ∀ x ∈ post.head?, x = ';' ∨ x = '\n') :
      (Text.find? (fun c => c == ';' || c == '\n') (body ++ post)).getD (Text.byteSize (body ++ post)) =
        Text.byteSize body :=
    Text.find?_append (fun x hx => by simpa using hbody x hx) fun x hx => (ends_iff x).mpr (hpost x hx)
  rw [ofRest, if_neg hbrace, if_neg hend, Option.some.injEq]
  constructor
  · rintro rfl
    have hends : (c == ';' || c == '\n') = false := by
      have hfeed : c ≠ '\n' := by
        rintro rfl
        cases hblank
      simp [hend, hfeed]
    -- the statement is what stands before the first character that ends one
    let body := t.takeWhile fun c => !(c == ';' || c == '\n')
    let post := t.dropWhile fun c => !(c == ';' || c == '\n')
    have hsplit : c :: t = c :: body ++ post := by rw [List.cons_append, List.takeWhile_append_dropWhile]
    have hbody : ∀ x ∈ c :: body, x ≠ ';' ∧ x ≠ '\n' := by
      refine List.forall_mem_cons.mpr ⟨by simpa using hends, fun x hx => ?_⟩
      simpa using List.mem_takeWhile_imp hx
    have hpost : ∀ x ∈ post.head?, x = ';' ∨ x = '\n' := by
      intro x hx
      have hnot := List.head?_dropWhile_not (fun c => !(c == ';' || c == '\n')) t
      rw [hx] at hnot
      exact Decidable.or_iff_not_imp_left.mpr (by simpa using hnot)
    rw [hsplit, stop_eq hbody hpost, ← Text.byteSize_append]
    exact ⟨c :: body, .statement hblank hbrace hbody hpost, rfl⟩
  · rintro ⟨_, hbody, rfl⟩
    cases hbody with
    | block => exact absurd rfl hbrace
    | statement _ _ hbody hpost =>
      rw [Text.byteSize_append front]
      exact congrArg (fun stop => LoopBody.mk header _ (Text.byteSize front + stop)) (stop_eq hbody hpost)

theorem ofRest_eq_some_iff {front t : Text} {header : Nat} (hblank : ∀ x ∈ t.head?, x.isBlank = false) :
    ofRest (front ++ t) header (Text.byteSize front) t = some b ↔
      ∃ body, StartsWithBody t body ∧ b = ⟨header, Text.byteSize front, Text.byteSize (front ++ body)⟩ := by
  cases t with
  | nil =>
    constructor
    · intro h
      cases h
    · rintro ⟨_, hbody, _⟩
      cases hbody
  | cons c t =>
    by_cases hbrace : c = '\x7b'
    · subst hbrace
      exact ofRest_block
    by_cases hend : c = ';'
    · subst hend
      constructor
      · intro h
        cases h
      · rintro ⟨_, hbody, _⟩
        cases hbody with
        | statement _ _ hbody => exact absurd rfl (hbody ';' List.mem_cons_self).1
    exact ofRest_statement (hblank c rfl) hbrace hend

/-- Blanks in front of a body are skipped. -/
theorem ofRest_trimStart {front post : Text} {header : Nat} :
    ofRest (front ++ post) header (Text.byteSize front + Text.indent post) (Text.trimStart post) = some b ↔
      ∃ lead t body, post = lead ++ t ∧ (∀ x ∈ lead, x.isBlank = true) ∧ StartsWithBody t body ∧
        b = ⟨header, Text.byteSize (front ++ lead), Text.byteSize (front ++ lead ++ body)⟩ := by
  have hsplit : post = post.takeWhile Char.isBlank ++ Text.trimStart post := List.takeWhile_append_dropWhile.symm
  have hblank : ∀ x ∈ (Text.trimStart post).head?, x.isBlank = false := by
    intro x hx
    have hnot := List.head?_dropWhile_not Char.isBlank post
    rw [Text.trimStart] at hx
    rw [hx] at hnot
    exact hnot
  have hrest : ofRest (front ++ post.takeWhile Char.isBlank ++ Text.trimStart post) header
      (Text.byteSize (front ++ post.takeWhile Char.isBlank)) (Text.trimStart post) = some b ↔ _ :=
      ofRest_eq_some_iff hblank
  rw [List.append_assoc, ← hsplit, Text.byteSize_append] at hrest
  rw [Text.indent, hrest]
  constructor
  · rintro ⟨body, hbody, rfl⟩
    exact ⟨_, _, body, hsplit, fun x hx => List.mem_takeWhile_imp hx, hbody, by rw [Text.byteSize_append front]⟩
  · rintro ⟨lead, t, body, rfl, hlead, hbody, rfl⟩
    obtain ⟨htake, htrim⟩ := eq_lead hlead hbody.head_not_blank
    rw [htake, htrim]
    exact ⟨body, hbody, by rw [Text.byteSize_append front]⟩

theorem ofHeader_eq_some_iff {rest : Text} (hstop : m.stop = Text.byteSize (pre ++ ['('])) :
    ofHeader (pre ++ '(' :: rest) m = some b ↔ m.group? 2 = none ∧
      ∃ condition lead t body, rest = condition ++ ')' :: (lead ++ t) ∧ Text.Balanced '(' ')' condition ∧
        (∀ x ∈ lead, x.isBlank = true) ∧ StartsWithBody t body ∧
        let front := pre ++ '(' :: (condition ++ ')' :: lead)
        b = ⟨m.start, Text.byteSize front, Text.byteSize (front ++ body)⟩ := by
  have hparen : m.stop - 1 = Text.byteSize pre := by
    rw [hstop, Text.byteSize_append, Text.byteSize_singleton]
    rfl
  rw [ofHeader_eq, hparen]
  cases hgroup : m.group? 2 with
  | some c => simp
  | none =>
    rw [Option.isSome_none, if_neg Bool.false_ne_true, Option.bind_eq_some_iff]
    simp only [Text.blockEnd_eq_some_iff (show Text.closer? '(' = some ')' from rfl), true_and]
    -- what the search goes on with behind the closing parenthesis
    have hbehind (condition post : Text) :
        (let rest := Text.dropBytes (Text.byteSize (pre ++ '(' :: condition) + 1)
          (pre ++ '(' :: (condition ++ ')' :: post))
        ofRest (pre ++ '(' :: (condition ++ ')' :: post)) m.start
          (Text.byteSize (pre ++ '(' :: condition) + 1 + Text.indent rest) (Text.trimStart rest) = some b) ↔
        ∃ lead t body, post = lead ++ t ∧ (∀ x ∈ lead, x.isBlank = true) ∧ StartsWithBody t body ∧
          let front := pre ++ '(' :: (condition ++ ')' :: lead)
          b = ⟨m.start, Text.byteSize front, Text.byteSize (front ++ body)⟩ := by
      have hfront : pre ++ '(' :: (condition ++ ')' :: post) = (pre ++ '(' :: (condition ++ [')'])) ++ post := by simp
      have hsize : Text.byteSize (pre ++ '(' :: condition) + 1 =
          Text.byteSize (pre ++ '(' :: (condition ++ [')'])) := by
        rw [← List.cons_append, ← List.append_assoc, Text.byteSize_append (pre ++ '(' :: condition)]
        rfl
      rw [hfront, hsize, Text.dropBytes_append]
      dsimp only
      rw [ofRest_trimStart]
      simp only [List.append_assoc, List.cons_append, List.nil_append]
    constructor
    · rintro ⟨_, ⟨condition, post, rfl, hcondition, rfl⟩, h⟩
      obtain ⟨lead, t, body, rfl, hlead, hbody, hb⟩ := (hbehind condition post).mp h
      exact ⟨condition, lead, t, body, rfl, hcondition, hlead, hbody, hb⟩
    · rintro ⟨condition, lead, t, body, rfl, hcondition, hlead, hbody, hb⟩
      exact ⟨_, ⟨condition, _, rfl, hcondition, rfl⟩, (hbehind condition _).mpr ⟨lead, t, body, rfl, hlead, hbody, hb⟩⟩

end LoopBody

/-- A head is known by its text. -/
theorem head_unique {keyword keyword' gap gap' each rest rest' : Text} (hk : IsLoopKeyword keyword)
    (hk' : IsLoopKeyword keyword') (hg : ∀ x ∈ gap, x.isBlank = true) (hg' : ∀ x ∈ gap', x.isBlank = true)
    (heach : each = [] ∨ IsAwaitGap each)
    (h : keyword ++ (gap ++ '(' :: rest) = keyword' ++ (gap' ++ (each ++ '(' :: rest'))) :
    keyword = keyword' ∧ gap = gap' ∧ each = [] ∧ rest = rest' := by
  have hkeyword : keyword = keyword' := by
    rcases hk with rfl | rfl <;> rcases hk' with rfl | rfl <;> first | rfl | simp at h
  subst hkeyword
  have h := List.append_cancel_left h
  have hhead : ∀ x ∈ (each ++ '(' :: rest').head?, x.isBlank = false := by
    rintro x hx
    rcases heach with rfl | ⟨_, rfl, _⟩ <;> cases hx <;> rfl
  have hgap := eq_lead hg (t := '(' :: rest) (by simp; decide)
  have hgap' := eq_lead hg' hhead
  rw [h] at hgap
  have heq : '(' :: rest = each ++ '(' :: rest' := hgap.2.symm.trans hgap'.2
  refine ⟨rfl, hgap.1.symm.trans hgap'.1, ?_⟩
  rcases heach with rfl | ⟨_, rfl, _⟩
  · exact ⟨rfl, (List.cons.inj heq).2⟩
  · simp at heq

/-- **The loops of a text** are those that the rule takes into account. -/
theorem mem_loopBodies_iff : b ∈ loopBodies content ↔ IsLoop content b := by
  rw [loopBodies, List.mem_filterMap]
  constructor
  · rintro ⟨m, hm, hb⟩
    obtain ⟨before, rest, rfl, hmatch⟩ := (mem_findAll_iff loopHeader_unoverlapped (by decide)).mp hm
    obtain ⟨w, post, g, hof⟩ := matchAt_of hmatch
    obtain ⟨keyword, gap, each, rfl, hkeyword, hbefore, hgap, heach⟩ := loopHeader_takes hof.takes
    have hstop : m.stop = Text.byteSize (before ++ (keyword ++ (gap ++ each)) ++ ['(']) := by
      simpa only [List.append_assoc] using hof.stop_eq
    have htext : before ++ rest = before ++ (keyword ++ (gap ++ each)) ++ '(' :: post := by
      simpa only [List.append_assoc, List.singleton_append] using hof.text_eq
    rw [htext] at hb ⊢
    obtain ⟨hgroup, condition, lead, t, body, rfl, hcondition, hlead, hbody, rfl⟩ :=
      (LoopBody.ofHeader_eq_some_iff hstop).mp hb
    -- a loop that awaits each item has a group
    rcases heach with ⟨rfl, _⟩ | ⟨_, hsome⟩
    · rw [start_of_matchAt hmatch]
      exact ⟨before, keyword, gap, condition, lead, t, body, by simp, hkeyword, hbefore, hgap, hcondition, hlead,
        hbody, by simp⟩
    · rw [hof.eq] at hgroup
      rw [show (captures g).lookup 2 = none from hgroup] at hsome
      cases hsome
  · rintro ⟨before, keyword, gap, condition, lead, rest, body, rfl, hkeyword, hbefore, hgap, hcondition,
      hlead, hbody, rfl⟩
    have hsome := isSome_matchAt_loopHeader (condition ++ ')' :: (lead ++ rest)) hkeyword hbefore hgap
    obtain ⟨m, hm⟩ := Option.isSome_iff_exists.mp hsome
    obtain ⟨w, post, g, hof⟩ := matchAt_of hm
    obtain ⟨keyword', gap', each, rfl, hkeyword', _, hgap', heach⟩ := loopHeader_takes hof.takes
    -- the match is the head of this loop
    obtain ⟨rfl, rfl, rfl, rfl⟩ := head_unique hkeyword hkeyword' hgap hgap' (heach.imp And.left And.left)
      (by simpa using List.append_cancel_left hof.text_eq)
    have hgroup : m.group? 2 = none := by
      rcases heach with ⟨_, hnone⟩ | ⟨⟨_, hawait, _⟩, _⟩
      · rw [hof.eq]
        exact hnone
      · simp at hawait
    have hstop : m.stop = Text.byteSize (before ++ (keyword ++ gap) ++ ['(']) := by simpa using hof.stop_eq
    have hmem : m ∈ loopHeader.findAll (before ++ (keyword ++ gap) ++ '(' :: (condition ++ ')' :: (lead ++ rest))) :=
      (mem_findAll_iff loopHeader_unoverlapped (by decide)).mpr ⟨before, _, by simp, hm⟩
    have hb := (LoopBody.ofHeader_eq_some_iff hstop).mpr
      ⟨hgroup, condition, lead, rest, body, rfl, hcondition, hlead, hbody, rfl⟩
    rw [start_of_matchAt hm] at hb
    exact ⟨m, by simpa using hmem, by simpa using hb⟩

end Checkup
