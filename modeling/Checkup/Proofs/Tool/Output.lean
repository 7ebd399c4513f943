import Checkup.Proofs.Json.Machine
import Checkup.Proofs.Text.Piece
import Checkup.Tool.Basic

/-!
# A JSON object in the output of a tool

Tools print other things around the object that is asked for. `jsonObject?` cuts it out as long as no opening brace
stands in front of it and no closing brace behind it, whatever the object is and however it is printed
(`jsonObject?_of_laid`): the text of an object starts with an opening brace and ends with a closing one.
-/

namespace Checkup

namespace Json

variable {t : Text} {k : Token} {ks : List Token}

/-- The last token of a text, with a gap behind it. -/
theorem exists_of_laid_concat (h : Laid (ks ++ [k]) t) :
    ∃ u l w, t = u ++ (l ++ w) ∧ Laid ks u ∧ k.Spells l ∧ IsGap w := by
  induction ks generalizing t with
  | nil =>
    obtain @⟨w⟩ | @⟨_, _, w, l, t, hw, hl, ht⟩ := h
    obtain ⟨hgap⟩ := ht
    exact ⟨w, l, t, rfl, .nil hw, hl, hgap⟩
  | cons k' ks ih =>
    obtain @⟨w⟩ | @⟨_, _, w, l, t, hw, hl, ht⟩ := h
    obtain ⟨u, l', w', rfl, hu, hl', hw'⟩ := ih ht
    exact ⟨w ++ (l ++ u), l', w', by simp only [List.append_assoc], .cons hw hl hu, hl', hw'⟩

theorem Laid.concat {u l : Text} (hu : Laid ks u) (hl : k.Spells l) : Laid (ks ++ [k]) (u ++ l) := by
  induction hu with
  | nil hw =>
    have hlast := Laid.cons hw hl (.nil isGap_nil)
    rwa [List.append_nil] at hlast
  | cons hw hl' _ ih =>
    rw [List.append_assoc, List.append_assoc]
    exact .cons hw hl' ih

/-- The tokens of an object stand between its braces. -/
theorem Tree.exists_tokens_object (members : List (Option String × Tree)) :
    ∃ ks, (Tree.object members).tokens = .openBrace :: (ks ++ [.closeBrace]) := by
  have hmore : ∀ more : List (Option String × Tree), ∃ ks, moreMembers more = ks ++ [.closeBrace] := by
    intro more
    induction more with
    | nil => exact ⟨[], rfl⟩
    | cons m more ih =>
      obtain ⟨ks, hks⟩ := ih
      exact ⟨.comma :: .string m.1 :: .colon :: (m.2.tokens ++ ks), by simp [moreMembers, hks]⟩
  cases members with
  | nil => exact ⟨[], by rw [tokens]; rfl⟩
  | cons m members =>
    obtain ⟨ks, hks⟩ := hmore members
    exact ⟨.string m.1 :: .colon :: (m.2.tokens ++ ks), by rw [tokens, hks]; simp⟩

/-- The text of an object is between gaps a text that starts with the opening and ends with the closing brace. -/
theorem exists_braces_of_laid {members : List (Option String × Tree)} (h : Laid (Tree.object members).tokens t) :
    ∃ w u w', t = w ++ ('\x7b' :: u ++ '\x7d' :: w') ∧ IsGap w ∧ IsGap w' ∧
      Laid (Tree.object members).tokens ('\x7b' :: u ++ ['\x7d']) := by
  obtain ⟨ks, hks⟩ := Tree.exists_tokens_object members
  rw [hks] at h ⊢
  obtain @⟨w⟩ | @⟨_, _, w, l, t, hw, hl, ht⟩ := h
  obtain ⟨u, l', w', rfl, hu, hl', hw'⟩ := exists_of_laid_concat ht
  cases hl
  cases hl'
  exact ⟨w, u, w', by simp, hw, hw', .cons isGap_nil .openBrace (hu.concat .closeBrace)⟩

end Json

open Json (Laid Tree)

/-- What is cut out runs from the first opening brace to the last closing one. -/
theorem jsonObject?_braces {before u after : Text} (hbefore : '\x7b' ∉ before) (hafter : '\x7d' ∉ after) :
    jsonObject? (before ++ ('\x7b' :: u ++ '\x7d' :: after)) = some ('\x7b' :: u ++ ['\x7d']) := by
  have hopen : ∀ c ∈ before, (c != '\x7b') = true := fun c hc => bne_iff_ne.mpr fun h => hbefore (h ▸ hc)
  have hclose : ∀ c ∈ after.reverse, (c != '\x7d') = true :=
    fun c hc => bne_iff_ne.mpr fun h => hafter (h ▸ List.mem_reverse.mp hc)
  have hstart : (before ++ ('\x7b' :: u ++ '\x7d' :: after)).dropWhile (· != '\x7b') =
      '\x7b' :: u ++ '\x7d' :: after := by
    rw [List.dropWhile_append_of_pos hopen]
    rfl
  have hend : Text.trimEndBy (· != '\x7d') ('\x7b' :: u ++ '\x7d' :: after) = '\x7b' :: u ++ ['\x7d'] := by
    have hreverse : ('\x7b' :: u ++ '\x7d' :: after).reverse = after.reverse ++ '\x7d' :: ('\x7b' :: u).reverse := by
      simp
    rw [Text.trimEndBy, hreverse, List.dropWhile_append_of_pos hclose]
    simp
  rw [jsonObject?, hstart]
  simp only [List.cons_append] at hend ⊢
  rw [hend]

/-- **The object is cut out of the output.** What is left is again a text of the object. -/
theorem jsonObject?_of_laid {members : List (Option String × Tree)} {before object after : Text}
    (h : Laid (Tree.object members).tokens object) (hbefore : '\x7b' ∉ before) (hafter : '\x7d' ∉ after) :
    ∃ t, jsonObject? (before ++ (object ++ after)) = some t ∧ Laid (Tree.object members).tokens t := by
  obtain ⟨w, u, w', rfl, hw, hw', hlaid⟩ := Json.exists_braces_of_laid h
  have hcut : jsonObject? ((before ++ w) ++ ('\x7b' :: u ++ '\x7d' :: (w' ++ after))) =
      some ('\x7b' :: u ++ ['\x7d']) := jsonObject?_braces
    (fun hmem => (List.mem_append.mp hmem).elim hbefore fun hmem => absurd (hw _ hmem) (by decide))
    (fun hmem => (List.mem_append.mp hmem).elim (fun hmem => absurd (hw' _ hmem) (by decide)) hafter)
  refine ⟨_, ?_, hlaid⟩
  rw [← hcut]
  simp only [List.append_assoc, List.cons_append]

/-- What is read out of the output is the value of the object. -/
theorem parse_jsonObject? {members : List (Option String × Tree)} {before object after : Text}
    (h : Laid (Tree.object members).tokens object) (hbefore : '\x7b' ∉ before) (hafter : '\x7d' ∉ after) :
    ∃ t, jsonObject? (before ++ (object ++ after)) = some t ∧ Json.parse t = (Tree.object members).value := by
  obtain ⟨t, hcut, hlaid⟩ := jsonObject?_of_laid h hbefore hafter
  exact ⟨t, hcut, by rw [Json.parse, Tree.parse_of_laid hlaid, Option.bind_some]⟩

end Checkup
