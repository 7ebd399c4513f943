import Mathlib.Data.List.Forall2
import Checkup.Json.Lenient
import Checkup.Proofs.Json.Machine

/-!
# JSON with comments says what the JSON in it says

A JSON text is cut into its lexemes (`Cut`), and the lexemes are put together again with blanks and comments around
them and commas in front of closing brackets (`Decorated`). The lenient reader gets the tree of the JSON text back.

* `stripComments_decorated`: the first step leaves line ends and blanks of what stands between the lexemes.
* `stripCommas_decorated`: the second step leaves the lexemes and blanks.
* `parseTree_decorated`: the main result.
-/

namespace Checkup.Json

variable {s t l r w b : Text} {c : Char} {k : Token} {ks : List Token} {ls : List Text} {ps : List Piece}

/-! ## Lexemes -/

/-- The lexemes of a text: what the reader of tokens takes off it, one after the other. -/
inductive Cut : Text → List Text → Prop where
  | nil : Cut [] []
  | space {c : Char} {t : Text} {ls : List Text} : isSpace c = true → Cut t ls → Cut (c :: t) ls
  | lexeme {l r : Text} {k : Token} {ls : List Text} :
      Token.read (l ++ r) = some (k, r) → Cut r ls → Cut (l ++ r) (l :: ls)

/-- The lexemes are written forms of the tokens. -/
theorem Cut.spells (h : Cut s ls) : ∃ ks, List.Forall₂ (fun l k => Token.Spells l k) ls ks ∧
    ∀ done, tokensOnto done s = some (done.reverse ++ ks) := by
  induction h with
  | nil => exact ⟨[], .nil, fun done => by simp [tokensOnto]⟩
  | space hc _ ih =>
    obtain ⟨ks, hls, hks⟩ := ih
    exact ⟨ks, hls, fun done => by rw [tokensOnto, if_pos hc, hks]⟩
  | @lexeme l r k ls hread _ ih =>
    obtain ⟨ks, hls, hks⟩ := ih
    refine ⟨k :: ks, .cons (Token.spells_of_read_append hread) hls, fun done => ?_⟩
    rw [tokensOnto_lexeme hread, hks]
    simp

/-- Every text that has tokens has lexemes. -/
theorem exists_cut {done : List Token} (h : tokensOnto done s = some ks) : ∃ ls, Cut s ls := by
  fun_induction tokensOnto done s with
  | case1 => exact ⟨[], .nil⟩
  | case2 done c t hc ih =>
    obtain ⟨ls, hls⟩ := ih h
    exact ⟨ls, .space hc hls⟩
  | case3 => cases h
  | case4 done c t hc k r hread ih =>
    obtain ⟨ls, hls⟩ := ih h
    obtain ⟨l, -, heq⟩ := Token.spells_of_read hread
    rw [heq] at hread ⊢
    exact ⟨l :: ls, .lexeme hread hls⟩

namespace Lenient

/-! ## Decorated texts -/

/-- Blanks, tabs, line ends and comments. -/
inductive Trivia : Text → Prop where
  | nil : Trivia []
  | space {c : Char} {t : Text} : isSpace c = true → Trivia t → Trivia (c :: t)
  | line {body t : Text} : '\n' ∉ body → Trivia t → Trivia ('/' :: '/' :: (body ++ '\n' :: t))
  | block {body t : Text} : ¬ ['*', '/'] <:+: body → Trivia t → Trivia ('/' :: '*' :: (body ++ '*' :: '/' :: t))

/-- What may stand at the end of a text: there a comment may lack its line end. -/
inductive LastTrivia : Text → Prop where
  | closed {w : Text} : Trivia w → LastTrivia w
  | line {w body : Text} : Trivia w → '\n' ∉ body → LastTrivia (w ++ '/' :: '/' :: body)

/-- The lexemes with a gap in front of each and one at the end, and with any number of closing brackets that have one
more comma in front of them. -/
inductive Decorated (Gap Last : Text → Prop) : List Text → Text → Prop where
  | nil {w : Text} : Last w → Decorated Gap Last [] w
  | lexeme {w l t : Text} {ls : List Text} :
      Gap w → Decorated Gap Last ls t → Decorated Gap Last (l :: ls) (w ++ (l ++ t))
  | comma {w w' l t : Text} {ls : List Text} :
      Gap w → Gap w' → l = [']'] ∨ l = ['\x7d'] → Decorated Gap Last ls t →
      Decorated Gap Last (l :: ls) (w ++ ',' :: (w' ++ (l ++ t)))

/-! ## Quoted text -/

/-- What both steps do with quoted text: outside they keep every character but `special`, and a quote takes them
inside; inside they keep everything, also the character behind a backslash, until the next quote. -/
structure Keeps (code quoted : Text → Text) (special : Char) : Prop where
  char : ∀ {c t}, c ≠ special → c ≠ '\"' → code (c :: t) = c :: code t
  opening : ∀ {t}, code ('\"' :: t) = '\"' :: quoted t
  inside : ∀ {c t}, c ≠ '\\' → c ≠ '\"' → quoted (c :: t) = c :: quoted t
  escape : ∀ {c t}, quoted ('\\' :: c :: t) = '\\' :: c :: quoted t
  closing : ∀ {t}, quoted ('\"' :: t) = '\"' :: code t

section

variable {code quoted : Text → Text} {special : Char}

theorem ne_of_hexValue {n : Nat} (h : hexValue c = some n) : c ≠ '\\' ∧ c ≠ '\"' := by
  constructor <;> (rintro rfl; cases h)

theorem Keeps.body (h : Keeps code quoted special) (hb : Body b ps) :
    quoted (b ++ '\"' :: r) = b ++ '\"' :: code r := by
  induction hb with
  | nil => exact h.closing
  | unit hn _ ih =>
    simp only [hexUnit, bind, Option.bind_eq_some_iff] at hn
    obtain ⟨n₁, h₁, n₂, h₂, n₃, h₃, n₄, h₄, -⟩ := hn
    have pass : ∀ {c n u}, hexValue c = some n → quoted (c :: u) = c :: quoted u :=
      fun hc => h.inside (ne_of_hexValue hc).1 (ne_of_hexValue hc).2
    simp only [List.cons_append, h.escape, pass h₁, pass h₂, pass h₃, pass h₄, ih]
  | escape he _ ih => simp only [List.cons_append, h.escape, ih]
  | char _ hback hquote _ ih => simp only [List.cons_append, h.inside hback hquote, ih]

theorem Keeps.plain (h : Keeps code quoted special) (hl : ∀ c ∈ l, c ≠ special ∧ c ≠ '\"') :
    code (l ++ r) = l ++ code r := by
  induction l with
  | nil => rfl
  | cons c l ih =>
    obtain ⟨hspecial, hquote⟩ := hl c (by simp)
    rw [List.cons_append, h.char hspecial hquote, ih fun c hc => hl c (by simp [hc]), List.cons_append]

theorem ne_of_isMark (h : Numeral.IsMark c) : c ≠ '/' ∧ c ≠ ',' ∧ c ≠ '\"' := by
  refine ⟨?_, ?_, ?_⟩ <;> (rintro rfl; exact absurd h (by simp [Numeral.IsMark]))

/-- A step leaves a lexeme alone, unless the step is the one about commas and the lexeme is a comma. -/
theorem Keeps.lexeme (h : Keeps code quoted special) (hspecial : special = '/' ∨ special = ',' ∧ k ≠ .comma)
    (hk : k.Spells l) : code (l ++ r) = l ++ code r := by
  cases hk with
  | string hb => simp only [List.cons_append, List.append_assoc, List.nil_append, h.opening, h.body hb]
  | numeral hn =>
    refine h.plain fun c hc => ?_
    obtain ⟨hslash, hcomma, hquote⟩ := ne_of_isMark (hn.isMark c hc)
    rcases hspecial with rfl | ⟨rfl, -⟩
    · exact ⟨hslash, hquote⟩
    · exact ⟨hcomma, hquote⟩
  | comma =>
    rcases hspecial with rfl | ⟨-, hk⟩
    · exact h.plain (by simp)
    · exact absurd rfl hk
  | _ => rcases hspecial with rfl | ⟨rfl, -⟩ <;> exact h.plain (by simp)

theorem Keeps.gap (h : Keeps code quoted special) (hspecial : isSpace special = false) (hw : IsGap w) :
    code (w ++ r) = w ++ code r := by
  refine h.plain fun c hc => ?_
  have hspace := hw c hc
  constructor
  · rintro rfl
    exact absurd hspace (by simp [hspecial])
  · rintro rfl
    cases hspace

end

/-! ## Comments -/

theorem stripComments_keeps : Keeps (stripComments .code) (stripComments .quoted) '/' where
  char hslash hquote := by
    rw [stripComments]
    · rw [if_neg hquote]
    · exact fun _ h => absurd h hslash
    · exact fun _ h => absurd h hslash
  opening := by
    intro t
    rw [stripComments]
    · rw [if_pos rfl]
    · exact fun _ h => absurd h (by decide)
    · exact fun _ h => absurd h (by decide)
  inside hback hquote := by
    rw [stripComments]
    · rw [if_neg hquote]
    · exact fun _ _ h => absurd h hback
  escape := rfl
  closing := rfl

theorem stripComments_lineComment {body : Text} (h : '\n' ∉ body) :
    stripComments .lineComment body = [] ∧
      stripComments .lineComment (body ++ '\n' :: t) = '\n' :: stripComments .code t := by
  induction body with
  | nil => exact ⟨rfl, rfl⟩
  | cons c body ih =>
    obtain ⟨hc, hbody⟩ := not_or.mp (mt List.mem_cons.mpr h)
    obtain ⟨hend, hline⟩ := ih hbody
    simp only [List.cons_append, stripComments, if_neg (Ne.symm hc)]
    exact ⟨hend, hline⟩

/-- A comment goes on behind a text without its end, whatever stars stand in the text. -/
theorem stripComments_inBlock {body : Text} {star : Bool} (h : ¬ ['*', '/'] <:+: body)
    (hstar : star = true → body.head? ≠ some '/') :
    ∃ star', ∀ r, stripComments (.blockComment star) (body ++ r) = stripComments (.blockComment star') r := by
  induction body generalizing star with
  | nil => exact ⟨star, fun r => rfl⟩
  | cons c body ih =>
    have hc : ¬ (star && decide (c = '/')) = true := by
      simp only [Bool.and_eq_true, decide_eq_true_eq, not_and]
      rintro hs rfl
      exact hstar hs rfl
    have hbody : ¬ ['*', '/'] <:+: body := fun hbody => h (hbody.trans (List.suffix_cons c body).isInfix)
    have hnext : decide (c = '*') = true → body.head? ≠ some '/' := by
      intro hs hhead
      obtain rfl := of_decide_eq_true hs
      obtain ⟨body', rfl⟩ := List.head?_eq_some_iff.mp hhead
      exact h ⟨[], body', rfl⟩
    obtain ⟨star', heq⟩ := ih hbody hnext
    exact ⟨star', fun r => by rw [List.cons_append, stripComments, if_neg hc, heq]⟩

theorem stripComments_blockComment {body : Text} (h : ¬ ['*', '/'] <:+: body) :
    stripComments (.blockComment false) body = [] ∧
      stripComments (.blockComment false) (body ++ '*' :: '/' :: t) = stripComments .code t := by
  have hstart : false = true → body.head? ≠ some '/' := fun hs => by cases hs
  obtain ⟨star, heq⟩ := stripComments_inBlock h hstart
  constructor
  · have hend := heq []
    rwa [List.append_nil, stripComments] at hend
  · rw [heq]
    simp [stripComments]

/-- Of what stands between lexemes only blanks and line ends are left. -/
theorem stripComments_trivia (h : Trivia w) :
    ∃ w', IsGap w' ∧ ∀ r, stripComments .code (w ++ r) = w' ++ stripComments .code r := by
  induction h with
  | nil => exact ⟨[], isGap_nil, fun r => rfl⟩
  | @space c t hc _ ih =>
    obtain ⟨w', hw', heq⟩ := ih
    have hne : c ≠ '/' ∧ c ≠ '\"' := by constructor <;> (rintro rfl; cases hc)
    refine ⟨c :: w', hw'.cons hc, fun r => ?_⟩
    rw [List.cons_append, stripComments_keeps.char hne.1 hne.2, heq, List.cons_append]
  | line hbody _ ih =>
    obtain ⟨w', hw', heq⟩ := ih
    refine ⟨'\n' :: w', hw'.cons rfl, fun r => ?_⟩
    simp only [List.cons_append, List.append_assoc, stripComments, (stripComments_lineComment hbody).2, heq]
  | block hbody _ ih =>
    obtain ⟨w', hw', heq⟩ := ih
    refine ⟨w', hw', fun r => ?_⟩
    simp only [List.cons_append, List.append_assoc, stripComments, (stripComments_blockComment hbody).2, heq]

theorem stripComments_lastTrivia (h : LastTrivia w) : IsGap (stripComments .code w) := by
  cases h with
  | closed hw =>
    obtain ⟨w', hw', heq⟩ := stripComments_trivia hw
    have hnil := heq []
    rw [List.append_nil, stripComments, List.append_nil] at hnil
    rwa [hnil]
  | line hw hbody =>
    obtain ⟨w', hw', heq⟩ := stripComments_trivia hw
    rw [heq, stripComments, (stripComments_lineComment (t := []) hbody).1, List.append_nil]
    exact hw'

theorem stripComments_decorated (h : Decorated Trivia LastTrivia ls t)
    (hls : List.Forall₂ (fun l k => Token.Spells l k) ls ks) : Decorated IsGap IsGap ls (stripComments .code t) := by
  induction h generalizing ks with
  | nil hw => exact .nil (stripComments_lastTrivia hw)
  | lexeme hw _ ih =>
    obtain ⟨k, ks', hk, hls', rfl⟩ := List.forall₂_cons_left_iff.mp hls
    obtain ⟨w', hw', heq⟩ := stripComments_trivia hw
    rw [heq, stripComments_keeps.lexeme (Or.inl rfl) hk]
    exact .lexeme hw' (ih hls')
  | comma hw₁ hw₂ hclose _ ih =>
    obtain ⟨k, ks', hk, hls', rfl⟩ := List.forall₂_cons_left_iff.mp hls
    obtain ⟨w₁', hw₁', heq₁⟩ := stripComments_trivia hw₁
    obtain ⟨w₂', hw₂', heq₂⟩ := stripComments_trivia hw₂
    rw [heq₁, stripComments_keeps.char (by decide) (by decide), heq₂, stripComments_keeps.lexeme (Or.inl rfl) hk]
    exact .comma hw₁' hw₂' hclose (ih hls')

/-! ## Commas -/

theorem stripCommas_keeps : Keeps (stripCommas false) (stripCommas true) ',' where
  char hcomma hquote := by simp [stripCommas, hcomma, hquote]
  opening := by simp [stripCommas]
  inside hback hquote := by
    rw [stripCommas]
    · rw [bne_iff_ne.mpr hquote]
    · exact fun _ _ h => absurd h hback
  escape := rfl
  closing := rfl

theorem closesNext_gap (hw : IsGap w) : closesNext (w ++ t) = closesNext t := by
  have hblank : ∀ c ∈ w, c.isBlank = true := fun c hc => Token.isBlank_of_isSpace (hw c hc)
  unfold closesNext
  rw [List.dropWhile_append_of_pos hblank]

theorem closesNext_cons (hc : c.isBlank = false) :
    closesNext (c :: t) = (decide (c = '\x7d') || decide (c = ']')) := by
  simp [closesNext, hc]

/-- Where no closing bracket may come, none comes next. -/
theorem closesNext_decorated (h : Decorated IsGap IsGap ls t)
    (hls : List.Forall₂ (fun l k => Token.Spells l k) ls ks) (hks : ∀ k ∈ ks.head?, ¬ k.IsClosing) :
    closesNext t = false := by
  cases h with
  | nil hw =>
    have hgap := closesNext_gap (t := []) hw
    rw [List.append_nil] at hgap
    rw [hgap]
    rfl
  | lexeme hw ht =>
    obtain ⟨k, ks', hk, -, rfl⟩ := List.forall₂_cons_left_iff.mp hls
    obtain ⟨c, rest, rfl, hstart⟩ := hk.head
    obtain ⟨hbrace, hbracket⟩ := hstart.not_closing (hks k rfl)
    rw [closesNext_gap hw, List.cons_append, closesNext_cons hstart.isBlank]
    simp [hbrace, hbracket]
  | comma hw hw' hclose ht =>
    obtain ⟨k, ks', hk, -, rfl⟩ := List.forall₂_cons_left_iff.mp hls
    obtain ⟨c, rest, rfl, hstart⟩ := hk.head
    obtain ⟨hbrace, hbracket⟩ := hstart.not_closing (hks k rfl)
    rcases hclose with hl | hl
    · exact absurd (List.cons.inj hl).1 hbracket
    · exact absurd (List.cons.inj hl).1 hbrace

theorem stripCommas_decorated (h : Decorated IsGap IsGap ls t)
    (hls : List.Forall₂ (fun l k => Token.Spells l k) ls ks) (hks : Token.Orderly ks) :
    Laid ks (stripCommas false t) := by
  induction h generalizing ks with
  | @nil w hw =>
    obtain rfl := List.forall₂_nil_left_iff.mp hls
    have hgap := stripCommas_keeps.gap (r := []) rfl hw
    rw [List.append_nil, stripCommas, List.append_nil] at hgap
    exact hgap.symm ▸ .nil hw
  | @lexeme w l t ls hw ht ih =>
    obtain ⟨k, ks', hk, hls', rfl⟩ := List.forall₂_cons_left_iff.mp hls
    have hlexeme : stripCommas false (l ++ t) = l ++ stripCommas false t := by
      by_cases hcomma : k = .comma
      · subst hcomma
        cases hk with
        | comma =>
          have hnext : closesNext t = false := closesNext_decorated ht hls' fun k hk => by
            have hfollows := hks.1
            rwa [hk] at hfollows
          simp [stripCommas, hnext]
      · exact stripCommas_keeps.lexeme (Or.inr ⟨rfl, hcomma⟩) hk
    rw [stripCommas_keeps.gap rfl hw, hlexeme]
    exact .cons hw hk (ih hls' hks.2)
  | @comma w w' l t ls hw hw' hclose _ ih =>
    obtain ⟨k, ks', hk, hls', rfl⟩ := List.forall₂_cons_left_iff.mp hls
    have hcomma : k ≠ .comma := by
      rintro rfl
      rcases hclose with rfl | rfl <;> cases hk
    have hnext : closesNext (w' ++ (l ++ t)) = true := by
      rw [closesNext_gap hw']
      rcases hclose with rfl | rfl <;> rfl
    have hdrop : stripCommas false (',' :: (w' ++ (l ++ t))) = stripCommas false (w' ++ (l ++ t)) := by
      simp [stripCommas, hnext]
    rw [stripCommas_keeps.gap rfl hw, hdrop, stripCommas_keeps.gap rfl hw',
      stripCommas_keeps.lexeme (Or.inr ⟨rfl, hcomma⟩) hk, ← List.append_assoc]
    exact .cons (hw.append hw') hk (ih hls' hks.2)

/-- **JSON with comments.** Take a text that the strict reader accepts, cut it into its lexemes, and put any blanks
and comments around these and, wherever wanted, one more comma in front of a closing bracket. The lenient reader gets
the same tree and so the same value from it. -/
theorem parseTree_decorated {v : Tree} (h : Tree.parse s = some v) :
    (∃ ls, Cut s ls) ∧ ∀ ls t, Cut s ls → Decorated Trivia LastTrivia ls t →
      Lenient.parseTree t = some v ∧ Lenient.parse t = Json.parse s := by
  obtain ⟨ks, hks, hv⟩ := Option.bind_eq_some_iff.mp h
  refine ⟨exists_cut hks, fun ls t hcut ht => ?_⟩
  obtain ⟨ks', hls, htokens⟩ := hcut.spells
  obtain rfl : ks' = ks := by
    rw [tokens, htokens] at hks
    exact Option.some.inj hks
  have horderly := Tree.orderly_of_ofTokens hv
  have hlaid := stripCommas_decorated (stripComments_decorated ht hls) hls horderly
  have htree : Lenient.parseTree t = some v := by
    rw [parseTree, plain, Tree.parse, tokens_of_laid hlaid horderly]
    exact hv
  refine ⟨htree, ?_⟩
  rw [Lenient.parse, htree, Json.parse, h]

/-- A member whose value is an array with a string that looks like a comment. -/
def sampleJson : Text := "\x7b\"a\":[\"//\",1]\x7d".toList

/-- The same with comments that hold a comma, a quote and a bracket, and with two trailing commas. -/
def sampleText : Text := "\x7b/*,]*/\"a\":[\"//\" ,1/* \" */, // ]\n],\x7d//".toList

theorem parseTree_decorated_sample :
    (Tree.parse sampleJson).isSome = true ∧ Lenient.parseTree sampleText = Tree.parse sampleJson ∧
      Lenient.parse sampleText = Json.parse sampleJson := by
  have hsome : (Tree.parse sampleJson).isSome = true := by decide +kernel
  obtain ⟨v, hv⟩ := Option.isSome_iff_exists.mp hsome
  have hcut : Cut sampleJson
      [['\x7b'], ['\"', 'a', '\"'], [':'], ['['], ['\"', '/', '/', '\"'], [','], ['1'], [']'], ['\x7d']] := by
    show Cut (['\x7b'] ++ (['\"', 'a', '\"'] ++ ([':'] ++ (['['] ++ (['\"', '/', '/', '\"'] ++ ([','] ++ (['1'] ++
      ([']'] ++ (['\x7d'] ++ []))))))))) _
    exact .lexeme rfl (.lexeme rfl (.lexeme rfl (.lexeme rfl (.lexeme rfl (.lexeme rfl (.lexeme rfl (.lexeme rfl
      (.lexeme rfl .nil))))))))
  have hcomma : Trivia "/*,]*/".toList := @Trivia.block [',', ']'] [] (by decide) .nil
  have hquote : Trivia "/* \" */".toList := @Trivia.block [' ', '\"', ' '] [] (by decide) .nil
  have hbracket : Trivia " // ]\n".toList := .space rfl (@Trivia.line [' ', ']'] [] (by decide) .nil)
  have hend : LastTrivia "//".toList := @LastTrivia.line [] [] .nil (by decide)
  have hspace : Trivia " ".toList := .space rfl .nil
  have htext : Decorated Trivia LastTrivia
      [['\x7b'], ['\"', 'a', '\"'], [':'], ['['], ['\"', '/', '/', '\"'], [','], ['1'], [']'], ['\x7d']] sampleText :=
    .lexeme .nil <| .lexeme hcomma <| .lexeme .nil <| .lexeme .nil <| .lexeme .nil <| .lexeme hspace <|
      .lexeme .nil <| .comma hquote hbracket (Or.inl rfl) <| .comma .nil .nil (Or.inr rfl) <| .nil hend
  have hsame := (parseTree_decorated hv).2 _ _ hcut htext
  exact ⟨hsome, hsame.1.trans hv.symm, hsame.2⟩

end Lenient

end Checkup.Json
