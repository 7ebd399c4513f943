import Checkup.Proofs.Decimal.Text
import Checkup.Proofs.Json.Machine

/-!
# Indented text is read back

* `Number.numeral`: the numeral that a number is written as (`spells_text`).
* `spells_literal`: the literal of a string is the token of the string.
* `Tree.ofJson`: the tree of a value. `parse_pretty`: it is the tree of the indented text.
-/

namespace Checkup.Json

variable {t w : Text} {k : Token} {ks : List Token}

/-! ## Strings -/

/-- What a character inside a literal is read as. -/
def escapedPiece (c : Char) : Piece :=
  if c.toNat < 32 ∧ c ≠ '\n' ∧ c ≠ '\r' ∧ c ≠ '\t' ∧ c ≠ '\x08' ∧ c ≠ '\x0c' then .unit c.toNat else .char c

theorem hexValue_digitChar {n : Nat} (h : n < 16) : hexValue (Nat.digitChar n) = some n := by
  have hall : ∀ i : Fin 16, hexValue (Nat.digitChar i) = some i.val := by decide
  exact hall ⟨n, h⟩

theorem hexUnit_hexPair {n : Nat} (h : n < 256) :
    hexUnit '0' '0' (Nat.digitChar (n / 16)) (Nat.digitChar (n % 16)) = some n := by
  have hzero : hexValue '0' = some 0 := by decide
  have hhigh := hexValue_digitChar (show n / 16 < 16 by omega)
  have hlow := hexValue_digitChar (show n % 16 < 16 by omega)
  simp only [hexUnit, hzero, hhigh, hlow, bind, Option.bind_some, pure, Option.some.injEq]
  omega

theorem body_escapeChar {c : Char} {b : Text} {ps : List Piece} (hb : Body b ps) :
    Body (escapeChar c ++ b) (escapedPiece c :: ps) := by
  unfold escapeChar escapedPiece
  split
  · subst c; exact .escape rfl hb
  split
  · subst c; exact .escape rfl hb
  split
  · subst c; exact .escape rfl hb
  split
  · subst c; exact .escape rfl hb
  split
  · subst c; exact .escape rfl hb
  split
  · subst c; exact .escape rfl hb
  split
  · subst c; exact .escape rfl hb
  split
  · rename_i hlow
    rw [if_pos ⟨hlow, by assumption, by assumption, by assumption, by assumption, by assumption⟩]
    exact .unit (hexUnit_hexPair (by omega)) hb
  · rename_i hquote hback _ _ _ _ _ hlow
    rw [if_neg fun h => hlow h.1]
    exact .char (by omega) hback hquote hb

theorem body_escaped (cs : Text) : Body (cs.flatMap escapeChar) (cs.map escapedPiece) := by
  induction cs with
  | nil => exact .nil
  | cons c cs ih => exact body_escapeChar ih

theorem decode_unit {n : Nat} (hn : n < 32) (ps : List Piece) :
    Piece.decode (.unit n :: ps) = (Char.ofNat n :: ·) <$> Piece.decode ps := by
  have hhigh : isHighSurrogate n = false := by simp [isHighSurrogate]; omega
  have hlow : isLowSurrogate n = false := by simp [isLowSurrogate]; omega
  cases ps with
  | nil => simp [Piece.decode, hhigh, hlow]
  | cons p ps => cases p <;> simp [Piece.decode, hhigh, hlow]

theorem decode_escaped (cs : Text) : Piece.decode (cs.map escapedPiece) = some cs := by
  induction cs with
  | nil => rfl
  | cons c cs ih =>
    rw [List.map_cons, escapedPiece]
    split
    · rename_i h
      rw [decode_unit h.1, ih, Char.ofNat_toNat]
      rfl
    · rw [Piece.decode, ih]
      rfl

/-- The literal of a string is a written form of the token of the string. -/
theorem spells_literal (s : String) : Token.Spells (literal s) (.string (some s)) := by
  have hspells := Token.Spells.string (body_escaped s.toList)
  rw [decode_escaped, Option.map_some, String.ofList_toList] at hspells
  exact hspells

/-! ## Numbers -/

/-- The numeral that a number is written as. -/
def Number.numeral : Number → Numeral
  | nat n => ⟨false, Nat.toDigits 10 n, [], none⟩
  | neg n => ⟨true, Nat.toDigits 10 n, [], none⟩
  | real x => Decimal.shortestNumeral x

theorem Number.spells_text (n : Number) : Token.Spells n.text.toList (.numeral n.numeral) := by
  cases n with
  | nat n => exact .numeral (Decimal.spells_nat n)
  | neg n => exact .numeral (Decimal.spells_neg n)
  | real x => exact .numeral (Decimal.spells_shortestText x)

/-! ## Values -/

namespace Tree

mutual

/-- The tree of a value. -/
def ofJson : Json → Tree
  | .null => .null
  | .bool b => .bool b
  | .number n => .numeral n.numeral
  | .string s => .string (some s)
  | .array items => .array (itemsOfJson items)
  | .object members => .object (membersOfJson members)

/-- The trees of the items of an array. -/
def itemsOfJson : List Json → List Tree
  | [] => []
  | v :: vs => ofJson v :: itemsOfJson vs

/-- The trees of the members of an object. -/
def membersOfJson : List (String × Json) → List (Option String × Tree)
  | [] => []
  | (k, v) :: more => (some k, ofJson v) :: membersOfJson more

end

theorem itemsOfJson_eq (vs : List Json) : itemsOfJson vs = vs.map ofJson := by
  induction vs with
  | nil => rfl
  | cons v vs ih => rw [itemsOfJson, ih, List.map_cons]

theorem membersOfJson_eq (members : List (String × Json)) :
    membersOfJson members = members.map fun m => (some m.1, ofJson m.2) := by
  induction members with
  | nil => rfl
  | cons m members ih => rw [membersOfJson, ih, List.map_cons]

end Tree

theorem Laid.token {l : Text} (hl : k.Spells l) (h : Laid ks t) : Laid (k :: ks) (l ++ t) := .cons isGap_nil hl h

theorem Laid.gap (hw : IsGap w) (h : Laid ks t) : Laid ks (w ++ t) := by
  cases h with
  | nil hw' => exact .nil (hw.append hw')
  | cons hw' hl ht =>
    rw [← List.append_assoc]
    exact .cons (hw.append hw') hl ht

theorem isGap_newline (depth : Nat) : IsGap (newline depth) := by
  intro c hc
  rcases List.mem_cons.mp hc with rfl | hc
  · rfl
  · rw [List.eq_of_mem_replicate hc]
    rfl

/-- The key of a member, in front of its value. -/
theorem Laid.key (s : String) (h : Laid ks t) :
    Laid (.string (some s) :: .colon :: ks) (literal s ++ ([':', ' '] ++ t)) := by
  have hblank : IsGap [' '] := by simp [IsGap, isSpace]
  exact .token (spells_literal s) (.token (l := [':']) .colon (h.gap hblank))

mutual

/-- The indented text of a value is made of the tokens of its tree. -/
theorem laid_pretty {ks : List Token} {rest : List Text} (h : Laid ks rest.flatten) (depth : Nat) :
    (v : Json) → Laid ((Tree.ofJson v).tokens ++ ks) (prettyOnto rest depth v).flatten
  | .null => .token .null h
  | .bool true => .token .true h
  | .bool false => .token .false h
  | .number n => .token n.spells_text h
  | .string s => .token (spells_literal s) h
  | .array [] => .token (l := ['[']) .openBracket (.token .closeBracket h)
  | .object [] => .token (l := ['\x7b']) .openBrace (.token .closeBrace h)
  | .array (v :: vs) => by
    have hitems := laid_prettyItems h depth vs
    have hvalue := laid_pretty hitems (depth + 1) v
    simp only [Tree.ofJson, Tree.itemsOfJson, Tree.tokens, List.cons_append, List.append_assoc]
    exact .token .openBracket (.gap (isGap_newline _) hvalue)
  | .object ((k, v) :: more) => by
    have hmembers := laid_prettyMembers h depth more
    have hvalue := laid_pretty hmembers (depth + 1) v
    simp only [Tree.ofJson, Tree.membersOfJson, Tree.tokens, List.cons_append, List.append_assoc]
    exact .token .openBrace (.gap (isGap_newline _) (.key k hvalue))

theorem laid_prettyItems {ks : List Token} {rest : List Text} (h : Laid ks rest.flatten) (depth : Nat) :
    (vs : List Json) →
    Laid (Tree.moreItems (Tree.itemsOfJson vs) ++ ks)
      (prettyItemsOnto (newline depth :: [']'] :: rest) (depth + 1) vs).flatten
  | [] => .gap (isGap_newline _) (.token .closeBracket h)
  | v :: vs => by
    have hitems := laid_prettyItems h depth vs
    have hvalue := laid_pretty hitems (depth + 1) v
    simp only [Tree.itemsOfJson, Tree.moreItems, List.cons_append, List.append_assoc]
    exact .token .comma (.gap (isGap_newline _) hvalue)

theorem laid_prettyMembers {ks : List Token} {rest : List Text} (h : Laid ks rest.flatten) (depth : Nat) :
    (members : List (String × Json)) →
    Laid (Tree.moreMembers (Tree.membersOfJson members) ++ ks)
      (prettyMembersOnto (newline depth :: ['\x7d'] :: rest) (depth + 1) members).flatten
  | [] => .gap (isGap_newline _) (.token .closeBrace h)
  | (k, v) :: more => by
    have hmembers := laid_prettyMembers h depth more
    have hvalue := laid_pretty hmembers (depth + 1) v
    simp only [Tree.membersOfJson, Tree.moreMembers, List.cons_append, List.append_assoc]
    exact .token .comma (.gap (isGap_newline _) (.key k hvalue))

end

theorem laid_ofJson (v : Json) : Laid (Tree.ofJson v).tokens v.pretty := by
  have hend : Laid [] ([] : List Text).flatten := .nil isGap_nil
  have hlaid := laid_pretty hend 0 v
  rwa [List.append_nil] at hlaid

/-- The tree of the indented text of a value. -/
theorem parse_pretty (v : Json) : Tree.parse v.pretty = some (Tree.ofJson v) := Tree.parse_of_laid (laid_ofJson v)

end Checkup.Json
