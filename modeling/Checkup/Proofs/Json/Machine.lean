import Checkup.Json.Tree
import Checkup.Proofs.Json.Token

/-!
# The tokens of a tree

* `orderly_of_run`: in a sequence of tokens that the machine takes to a tree, no numeral comes behind a numeral and
  something other than a closing bracket behind every comma.
* `Tree.tokens`: the tokens of a tree. The machine takes them to the tree (`ofTokens_tokens`), so a text that is made
  of them has that tree (`Tree.parse_of_laid`).
-/

namespace Checkup.Json

namespace Machine

variable {m m' m'' : Machine} {k : Token} {ks : List Token}

theorem push_expect (v : Tree) (fs : List Frame) : (push v fs).expect = .more ∨ (push v fs).expect = .done v := by
  cases fs with
  | nil => exact Or.inr rfl
  | cons f fs => cases f <;> exact Or.inl rfl

/-- Behind a comma a value or a key has to come. -/
theorem step_comma (h : m.step .comma = some m') : m'.expect = .value ∨ ∃ done, m'.expect = .key done := by
  obtain ⟨fs, e⟩ := m
  cases e with
  | more =>
    cases fs with
    | nil => cases h
    | cons f fs =>
      cases f with
      | array done => obtain rfl := Option.some.inj h; exact Or.inl rfl
      | object done key => obtain rfl := Option.some.inj h; exact Or.inr ⟨_, rfl⟩
  | _ => cases h

/-- Behind a numeral no value comes. -/
theorem step_numeral {n : Numeral} (h : m.step (.numeral n) = some m') :
    m'.expect = .more ∨ ∃ v, m'.expect = .done v := by
  have hpush : ∀ {fs}, push (.numeral n) fs = m' → m'.expect = .more ∨ ∃ v, m'.expect = .done v := by
    rintro fs rfl
    exact (push_expect _ fs).imp id fun h => ⟨_, h⟩
  obtain ⟨fs, e⟩ := m
  cases e with
  | value => exact hpush (Option.some.inj h)
  | firstItem => exact hpush (Option.some.inj h)
  | _ => cases h

theorem not_isClosing_of_step (hm : m.expect = .value ∨ ∃ done, m.expect = .key done) (h : m.step k = some m') :
    ¬ k.IsClosing := by
  obtain ⟨fs, e⟩ := m
  intro hk
  rcases hm with rfl | ⟨done, rfl⟩ <;> cases k <;> first | exact hk | cases h

theorem not_numeral_of_step {n : Numeral} (hm : m.expect = .more ∨ ∃ v, m.expect = .done v) :
    m.step (.numeral n) = none := by
  obtain ⟨fs, e⟩ := m
  rcases hm with rfl | ⟨v, rfl⟩
  · cases fs with
    | nil => rfl
    | cons f fs => cases f <;> rfl
  · rfl

theorem follows_of_run {v : Tree} (h : m.step k = some m') (hks : ks.foldlM step m' = some m'')
    (hv : m''.result = some v) : Token.Follows k ks.head? := by
  cases k with
  | comma =>
    have hm := step_comma h
    cases ks with
    | nil =>
      obtain rfl := Option.some.inj hks
      obtain ⟨fs, e⟩ := m'
      rcases hm with rfl | ⟨done, rfl⟩ <;> cases hv
    | cons k ks =>
      obtain ⟨m₁, h₁, -⟩ := Option.bind_eq_some_iff.mp hks
      exact not_isClosing_of_step hm h₁
  | numeral n =>
    cases ks with
    | nil => trivial
    | cons k ks =>
      obtain ⟨m₁, h₁, -⟩ := Option.bind_eq_some_iff.mp hks
      cases k with
      | numeral n' =>
        rw [not_numeral_of_step (step_numeral h)] at h₁
        cases h₁
      | _ => trivial
  | _ => trivial

theorem orderly_of_run {v : Tree} (hks : ks.foldlM step m = some m') (hv : m'.result = some v) :
    Token.Orderly ks := by
  induction ks generalizing m with
  | nil => trivial
  | cons k ks ih =>
    obtain ⟨m₁, h₁, hks⟩ := Option.bind_eq_some_iff.mp hks
    exact ⟨follows_of_run h₁ hks hv, ih hks⟩

end Machine

/-- The tokens of a tree are orderly. -/
theorem Tree.orderly_of_ofTokens {ks : List Token} {v : Tree} (h : Tree.ofTokens ks = some v) : Token.Orderly ks := by
  obtain ⟨m, hrun, hv⟩ := Option.bind_eq_some_iff.mp h
  exact Machine.orderly_of_run hrun hv

/-! ## The tokens of a tree -/

namespace Tree

mutual

/-- The tokens of a tree. -/
def tokens : Tree → List Token
  | null => [.null]
  | bool b => [.bool b]
  | string s => [.string s]
  | numeral n => [.numeral n]
  | array [] => [.openBracket, .closeBracket]
  | array (v :: vs) => .openBracket :: (v.tokens ++ moreItems vs)
  | object [] => [.openBrace, .closeBrace]
  | object ((k, v) :: more) => .openBrace :: .string k :: .colon :: (v.tokens ++ moreMembers more)

/-- The tokens of the further items of an array, and of its end. -/
def moreItems : List Tree → List Token
  | [] => [.closeBracket]
  | v :: vs => .comma :: (v.tokens ++ moreItems vs)

/-- The tokens of the further members of an object, and of its end. -/
def moreMembers : List (Option String × Tree) → List Token
  | [] => [.closeBrace]
  | (k, v) :: more => .comma :: .string k :: .colon :: (v.tokens ++ moreMembers more)

end

end Tree

namespace Machine

theorem step_firstItem {v : Tree} {fs : List Frame} :
    (v.tokens ++ ks).foldlM step ⟨fs, .firstItem⟩ = (v.tokens ++ ks).foldlM step ⟨fs, .value⟩ := by
  cases v with
  | array items => cases items <;> rfl
  | object members => cases members <;> rfl
  | _ => rfl

mutual

/-- The machine takes the tokens of a tree where a value may stand. -/
theorem run_tokens (fs : List Frame) (ks : List Token) :
    (v : Tree) → (v.tokens ++ ks).foldlM step ⟨fs, .value⟩ = ks.foldlM step (push v fs)
  | .null => rfl
  | .bool _ => rfl
  | .string _ => rfl
  | .numeral _ => rfl
  | .array [] => rfl
  | .array (v :: vs) => by
    have hitems := run_moreItems fs [v] ks vs
    have hvalue := run_tokens (.array [] :: fs) (Tree.moreItems vs ++ ks) v
    rw [← step_firstItem] at hvalue
    simp only [Tree.tokens, List.cons_append, List.append_assoc]
    exact hvalue.trans hitems
  | .object [] => rfl
  | .object ((k, v) :: more) => by
    have hmembers := run_moreMembers fs k [(k, v)] ks more
    have hvalue := run_tokens (.object [] k :: fs) (Tree.moreMembers more ++ ks) v
    simp only [Tree.tokens, List.cons_append, List.append_assoc]
    exact hvalue.trans hmembers

theorem run_moreItems (fs : List Frame) (done : List Tree) (ks : List Token) : (vs : List Tree) →
    (Tree.moreItems vs ++ ks).foldlM step ⟨.array done :: fs, .more⟩ =
      ks.foldlM step (push (.array (done.reverse ++ vs)) fs)
  | [] => by
    simp only [Tree.moreItems, List.append_nil]
    rfl
  | v :: vs => by
    have hitems := run_moreItems fs (v :: done) ks vs
    have hvalue := run_tokens (.array done :: fs) (Tree.moreItems vs ++ ks) v
    simp only [Tree.moreItems, List.cons_append, List.append_assoc]
    rw [List.reverse_cons, List.append_assoc] at hitems
    exact hvalue.trans hitems

theorem run_moreMembers (fs : List Frame) (k : Option String) (done : List (Option String × Tree))
    (ks : List Token) : (more : List (Option String × Tree)) →
    (Tree.moreMembers more ++ ks).foldlM step ⟨.object done k :: fs, .more⟩ =
      ks.foldlM step (push (.object (done.reverse ++ more)) fs)
  | [] => by
    simp only [Tree.moreMembers, List.append_nil]
    rfl
  | (k, v) :: more => by
    have hmembers := run_moreMembers fs k ((k, v) :: done) ks more
    have hvalue := run_tokens (.object done k :: fs) (Tree.moreMembers more ++ ks) v
    simp only [Tree.moreMembers, List.cons_append, List.append_assoc]
    rw [List.reverse_cons, List.append_assoc] at hmembers
    exact hvalue.trans hmembers

end

end Machine

/-- The tokens of a tree are those of no other tree. -/
theorem Tree.ofTokens_tokens (v : Tree) : Tree.ofTokens v.tokens = some v := by
  have hrun := Machine.run_tokens [] [] v
  rw [List.append_nil] at hrun
  rw [Tree.ofTokens, Machine.start, hrun]
  rfl

/-- A text that is made of the tokens of a tree has that tree. -/
theorem Tree.parse_of_laid {v : Tree} {t : Text} (h : Laid v.tokens t) : Tree.parse t = some v := by
  have htree := Tree.ofTokens_tokens v
  rw [Tree.parse, tokens_of_laid h (Tree.orderly_of_ofTokens htree)]
  exact htree

end Checkup.Json
