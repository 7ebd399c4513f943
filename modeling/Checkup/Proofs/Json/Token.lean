import Checkup.Json.Token
import Checkup.Proofs.Json.Numeral

/-!
# The grammar of tokens

`Token.Spells l k` says that `l` is a written form of the token `k`, and `Laid ks t` that `t` is made of written forms
of the tokens `ks` with blanks between them.

* `Token.spells_of_read`, `Token.read_of_spells`: reading takes exactly the written forms off a text.
* `Body`: what stands between the quotes of a string.
* `tokens_of_laid`: the tokens of a text, if each comes behind one that it may come behind.
-/

namespace Checkup.Json

variable {t l r b : Text} {c : Char} {k : Token} {ks : List Token} {ps acc : List Piece}

/-! ## Strings -/

/-- The written form of the pieces of a string. -/
inductive Body : Text → List Piece → Prop where
  | nil : Body [] []
  | unit {h₁ h₂ h₃ h₄ : Char} {n : Nat} {b : Text} {ps : List Piece} :
      hexUnit h₁ h₂ h₃ h₄ = some n → Body b ps → Body ('\\' :: 'u' :: h₁ :: h₂ :: h₃ :: h₄ :: b) (.unit n :: ps)
  | escape {c e : Char} {b : Text} {ps : List Piece} :
      escaped c = some e → Body b ps → Body ('\\' :: c :: b) (.char e :: ps)
  | char {c : Char} {b : Text} {ps : List Piece} :
      32 ≤ c.toNat → c ≠ '\\' → c ≠ '\"' → Body b ps → Body (c :: b) (.char c :: ps)

theorem body_of_readPieces (h : readPieces acc t = some (ps, r)) :
    ∃ b qs, Body b qs ∧ ps = acc.reverse ++ qs ∧ t = b ++ '\"' :: r := by
  fun_induction readPieces acc t with
  | case1 => cases h
  | case2 =>
    simp only [Option.some.injEq, Prod.mk.injEq] at h
    obtain ⟨rfl, rfl⟩ := h
    exact ⟨[], [], .nil, by simp, rfl⟩
  | case3 acc h₁ h₂ h₃ h₄ t n hn ih =>
    obtain ⟨b, qs, hb, rfl, rfl⟩ := ih h
    exact ⟨_, .unit n :: qs, .unit hn hb, by simp, rfl⟩
  | case4 => cases h
  | case5 acc c t hne e he ih =>
    obtain ⟨b, qs, hb, rfl, rfl⟩ := ih h
    exact ⟨_, .char e :: qs, .escape he hb, by simp, rfl⟩
  | case6 => cases h
  | case7 => cases h
  | case8 acc c t h1 h2 h3 h4 ih =>
    obtain ⟨b, qs, hb, rfl, rfl⟩ := ih h
    simp only [Bool.or_eq_true, decide_eq_true_eq, not_or, Nat.not_lt] at h4
    exact ⟨_, .char c :: qs, .char h4.1 h4.2 (fun e => by simp_all) hb, by simp, rfl⟩

theorem readPieces_of_body (h : Body b ps) : readPieces acc (b ++ '\"' :: r) = some (acc.reverse ++ ps, r) := by
  induction h generalizing acc with
  | nil => simp [readPieces]
  | unit hn _ ih =>
    simp only [List.cons_append, readPieces, hn, ih]
    simp
  | @escape c e b ps he _ ih =>
    have hc : c ≠ 'u' := by rintro rfl; cases he
    rw [List.cons_append, List.cons_append, readPieces]
    · simp [he, ih]
    · intro _ _ _ _ _ h
      exact absurd h hc
  | @char c b ps hlow hback hquote _ ih =>
    rw [List.cons_append, readPieces]
    · simp [ih, hback, Nat.not_lt.mpr hlow]
    · exact fun h => hquote h
    · exact fun _ _ _ _ _ h => absurd h hback
    · exact fun _ _ h => absurd h hback

/-! ## Tokens -/

/-- The written form of a token. -/
inductive Token.Spells : Text → Token → Prop where
  | openBrace : Spells ['\x7b'] .openBrace
  | closeBrace : Spells ['\x7d'] .closeBrace
  | openBracket : Spells ['['] .openBracket
  | closeBracket : Spells [']'] .closeBracket
  | colon : Spells [':'] .colon
  | comma : Spells [','] .comma
  | null : Spells ['n', 'u', 'l', 'l'] .null
  | true : Spells ['t', 'r', 'u', 'e'] (.bool true)
  | false : Spells ['f', 'a', 'l', 's', 'e'] (.bool false)
  | string {b : Text} {ps : List Piece} :
      Body b ps → Spells ('\"' :: (b ++ ['\"'])) (.string ((Piece.decode ps).map String.ofList))
  | numeral {l : Text} {n : Numeral} : n.Spells l → Spells l (.numeral n)

namespace Token

/-- Reading takes a written form of the token off the text. -/
theorem spells_of_read (h : read t = some (k, r)) : ∃ l, Spells l k ∧ t = l ++ r := by
  unfold read at h
  split at h
  case h_10 =>
    simp only [Option.map_eq_some_iff, Prod.mk.injEq] at h
    obtain ⟨⟨ps, r'⟩, h, rfl, rfl⟩ := h
    obtain ⟨b, qs, hb, rfl, rfl⟩ := body_of_readPieces h
    exact ⟨_, .string hb, by simp⟩
  case h_11 =>
    simp only [Option.map_eq_some_iff, Prod.mk.injEq] at h
    obtain ⟨⟨n, r'⟩, h, rfl, rfl⟩ := h
    obtain ⟨l, hl, rfl⟩ := Numeral.spells_of_read h
    exact ⟨l, .numeral hl, rfl⟩
  all_goals
    simp only [Option.some.injEq, Prod.mk.injEq] at h
    obtain ⟨rfl, rfl⟩ := h
    exact ⟨_, by constructor, rfl⟩

theorem spells_of_read_append (h : read (l ++ r) = some (k, r)) : Spells l k := by
  obtain ⟨l', hl, heq⟩ := spells_of_read h
  rwa [List.append_cancel_right heq]

/-- A token is read back, a numeral if what follows does not continue it. -/
theorem read_of_spells (h : Spells l k) (hr : ∀ n, k = .numeral n → Numeral.Ends r) :
    read (l ++ r) = some (k, r) := by
  cases h with
  | string hb =>
    simp only [List.cons_append, List.append_assoc, List.nil_append, read, readPieces_of_body hb]
    rfl
  | numeral hn =>
    have hread := Numeral.read_of_spells hn (hr _ rfl)
    obtain ⟨c, rest, rfl, hc⟩ := hn.head
    unfold read
    split
    case h_11 => rw [hread]; rfl
    all_goals
      rename_i heq
      obtain rfl := (List.cons.inj heq).1
      exact absurd hc (by decide)
  | _ => rfl

/-- What a written form of the token starts with. -/
def IsStart (c : Char) : Token → Prop
  | openBrace => c = '\x7b'
  | closeBrace => c = '\x7d'
  | openBracket => c = '['
  | closeBracket => c = ']'
  | colon => c = ':'
  | comma => c = ','
  | null => c = 'n'
  | bool b => c = if b then 't' else 'f'
  | string _ => c = '\"'
  | numeral _ => c.isDigit = true ∨ c = '-'

theorem Spells.head (h : Spells l k) : ∃ c rest, l = c :: rest ∧ IsStart c k := by
  cases h with
  | numeral hn => exact hn.head
  | _ => exact ⟨_, _, rfl, rfl⟩

theorem isBlank_of_isSpace (h : isSpace c = true) : c.isBlank = true := by
  simp only [isSpace, Bool.or_eq_true, decide_eq_true_eq] at h
  rcases h with ((rfl | rfl) | rfl) | rfl <;> decide

theorem isBlank_of_isDigit (h : c.isDigit = true) : c.isBlank = false := by
  have hrange : 48 ≤ c.toNat ∧ c.toNat ≤ 57 := by
    simpa [Char.isDigit, UInt32.le_iff_toNat_le] using h
  simp only [Char.isBlank, Bool.or_eq_false_iff, Bool.and_eq_false_iff, decide_eq_false_iff_not, beq_eq_false_iff_ne]
  omega

theorem IsStart.isBlank (h : IsStart c k) : c.isBlank = false := by
  cases k with
  | bool b => cases b <;> (obtain rfl := h; decide)
  | numeral n =>
    rcases h with h | rfl
    · exact isBlank_of_isDigit h
    · decide
  | _ => obtain rfl := h; decide

theorem IsStart.isSpace (h : IsStart c k) : isSpace c = false := by
  rw [← Bool.not_eq_true]
  intro hspace
  exact absurd (isBlank_of_isSpace hspace) (by simp [h.isBlank])

theorem IsStart.ends (h : IsStart c k) (hk : ∀ n, k ≠ .numeral n) :
    c.isDigit = false ∧ c ≠ '.' ∧ c ≠ 'e' ∧ c ≠ 'E' := by
  cases k with
  | bool b => cases b <;> (obtain rfl := h; decide)
  | numeral n => exact absurd rfl (hk n)
  | _ => obtain rfl := h; decide

/-- Whether the token ends an array or object. -/
def IsClosing : Token → Prop
  | closeBrace => True
  | closeBracket => True
  | _ => False

theorem IsStart.not_closing (h : IsStart c k) (hk : ¬ IsClosing k) : c ≠ '\x7d' ∧ c ≠ ']' := by
  cases k with
  | closeBrace => exact absurd trivial hk
  | closeBracket => exact absurd trivial hk
  | bool b => cases b <;> (obtain rfl := h; decide)
  | numeral n => constructor <;> (rintro rfl; exact absurd h (by simp [IsStart]))
  | _ => obtain rfl := h; decide

/-- What may come behind a token: no numeral behind a numeral, and neither the end nor a closing bracket behind a
comma. -/
def Follows : Token → Option Token → Prop
  | numeral _, some (numeral _) => False
  | comma, some k => ¬ IsClosing k
  | comma, none => False
  | _, _ => True

/-- Behind every token comes what may come there. -/
def Orderly : List Token → Prop
  | [] => True
  | k :: ks => Follows k ks.head? ∧ Orderly ks

end Token

/-! ## Texts -/

/-- Only blanks, tabs and line ends. -/
def IsGap (t : Text) : Prop := ∀ c ∈ t, isSpace c = true

theorem isGap_nil : IsGap [] := by simp [IsGap]

theorem IsGap.cons {w : Text} (hc : isSpace c = true) (hw : IsGap w) : IsGap (c :: w) := by
  simp only [IsGap, List.forall_mem_cons]
  exact ⟨hc, hw⟩

theorem IsGap.append {w w' : Text} (hw : IsGap w) (hw' : IsGap w') : IsGap (w ++ w') := by
  simp only [IsGap, List.forall_mem_append]
  exact ⟨hw, hw'⟩

/-- The text is made of written forms of the tokens, with gaps around them. -/
inductive Laid : List Token → Text → Prop where
  | nil {w : Text} : IsGap w → Laid [] w
  | cons {k : Token} {ks : List Token} {w l t : Text} :
      IsGap w → k.Spells l → Laid ks t → Laid (k :: ks) (w ++ (l ++ t))

theorem tokensOnto_gap {w : Text} {done : List Token} (hw : IsGap w) :
    tokensOnto done (w ++ t) = tokensOnto done t := by
  induction w with
  | nil => rfl
  | cons c w ih =>
    have hc : isSpace c = true := hw c (by simp)
    rw [List.cons_append, tokensOnto, if_pos hc, ih fun c' h => hw c' (by simp [h])]

/-- What comes behind a numeral does not continue it. -/
theorem Laid.ends (h : Laid ks t) (hks : ∀ n, ks.head? ≠ some (.numeral n)) : Numeral.Ends t := by
  have hspace : ∀ {c}, isSpace c = true → c.isDigit = false ∧ c ≠ '.' ∧ c ≠ 'e' ∧ c ≠ 'E' := by
    intro c hc
    simp only [isSpace, Bool.or_eq_true, decide_eq_true_eq] at hc
    rcases hc with ((rfl | rfl) | rfl) | rfl <;> decide
  intro c hc
  cases h with
  | nil hw => exact hspace (hw c (List.mem_of_mem_head? hc))
  | @cons k ks w l t hw hl ht =>
    cases w with
    | cons c' w =>
      obtain rfl := Option.some.inj hc
      exact hspace (hw _ (by simp))
    | nil =>
      obtain ⟨c', rest, rfl, hstart⟩ := hl.head
      obtain rfl := Option.some.inj hc
      exact hstart.ends fun n e => hks n (by simp [e])

theorem tokensOnto_lexeme {done : List Token} (h : Token.read (l ++ r) = some (k, r)) :
    tokensOnto done (l ++ r) = tokensOnto (k :: done) r := by
  obtain ⟨c, rest, rfl, hstart⟩ := (Token.spells_of_read_append h).head
  rw [List.cons_append] at h ⊢
  rw [tokensOnto, if_neg (by simp [hstart.isSpace])]
  split
  · rename_i heq
    rw [h] at heq
    cases heq
  · rename_i heq
    rw [h] at heq
    obtain ⟨rfl, rfl⟩ := Prod.mk.inj (Option.some.inj heq)
    rfl

theorem tokensOnto_laid {done : List Token} (h : Laid ks t) (hks : Token.Orderly ks) :
    tokensOnto done t = some (done.reverse ++ ks) := by
  induction h generalizing done with
  | nil hw =>
    have hgap : tokensOnto done (_ ++ []) = tokensOnto done [] := tokensOnto_gap hw
    rw [List.append_nil] at hgap
    rw [hgap, tokensOnto, List.append_nil]
  | @cons k ks w l t hw hl ht ih =>
    have hread : Token.read (l ++ t) = some (k, t) := Token.read_of_spells hl fun n hn => ht.ends fun m hm => by
      have hfollows := hks.1
      rw [hn, hm] at hfollows
      exact hfollows
    rw [tokensOnto_gap hw, tokensOnto_lexeme hread, ih hks.2]
    simp

/-- The tokens of a text that is made of written forms. -/
theorem tokens_of_laid (h : Laid ks t) (hks : Token.Orderly ks) : tokens t = some ks := tokensOnto_laid h hks

end Checkup.Json
