import Checkup.Proofs.LineBreak.Import

/-!
# Loops and carriage returns

The body of a loop may end at a line feed, which is one carriage return farther behind than the place before it. So
the ends of bodies are places of characters (`Text.Lands`), which keep their order, too (`Lands.lt_iff`). With that the
same loops lie in each other, and the same awaits in them (`awaitsDirectly_crlf`).
-/

namespace Checkup

open Text (crlf crlf_nil crlf_cons crlf_feed crlf_append Moves MovesAt)
open Pattern

variable {content : Text}

namespace Text

variable {t : Text} {a a' b b' : Nat}

/-- Whether the character at offset `n` of the text, or its end, is at offset `n'` of the text with carriage returns. -/
def Lands (t : Text) (n n' : Nat) : Prop :=
  ∃ pre rest, t = pre ++ rest ∧ n = byteSize pre ∧
    n' = byteSize (crlf pre) + if rest.head? = some '\n' then 1 else 0

theorem MovesAt.lands {c : Char} (h : MovesAt t c a a') (hc : c ≠ '\n') : Lands t a a' := by
  obtain ⟨pre, rest, ht, ha, ha'⟩ := h
  exact ⟨pre, c :: rest, ht, ha, by simpa [hc] using ha'⟩

/-- Characters keep their order. -/
theorem Lands.lt_iff (ha : Lands t a a') (hb : Lands t b b') : a < b ↔ a' < b' := by
  have hbehind {p r w s : Text} {c : Char} (hr : r = c :: w ++ s) :
      byteSize (crlf p) + (if r.head? = some '\n' then 1 else 0) < byteSize (crlf (p ++ c :: w)) := by
    rw [hr, crlf_append, byteSize_append, List.cons_append, List.head?_cons]
    by_cases hc : c = '\n'
    · subst hc
      simp only [crlf_feed, byteSize_cons, if_true]
      have : ('\r' : Char).utf8Size = 1 := rfl
      have : ('\n' : Char).utf8Size = 1 := rfl
      omega
    · have := c.utf8Size_pos
      rw [if_neg (by simpa using hc), crlf_cons hc, byteSize_cons]
      omega
  obtain ⟨p, r, rfl, rfl, rfl⟩ := ha
  obtain ⟨q, s, h, rfl, rfl⟩ := hb
  rcases List.append_eq_append_iff.mp h with ⟨w, rfl, hr⟩ | ⟨w, rfl, hs⟩
  · cases w with
    | nil =>
      rw [List.nil_append] at hr
      simp [hr]
    | cons c w =>
      have := byteSize_pos (List.cons_ne_nil c w)
      have := hbehind (p := p) hr
      rw [byteSize_append]
      omega
  · cases w with
    | nil =>
      rw [List.nil_append] at hs
      simp [hs]
    | cons c w =>
      have := hbehind (p := q) hs
      rw [byteSize_append]
      omega

theorem Lands.le_iff (ha : Lands t a a') (hb : Lands t b b') : a ≤ b ↔ a' ≤ b' := by
  have := hb.lt_iff ha
  omega

theorem findFrom?_add (p : Char → Bool) (k n : Nat) (t : Text) :
    findFrom? p (k + n) t = (findFrom? p n t).map (k + ·) := by
  induction t generalizing n with
  | nil => rfl
  | cons c t ih =>
    rw [findFrom?, findFrom?, Nat.add_assoc, ih]
    split <;> rfl

/-- The first character of a class that takes line feeds. -/
theorem findFrom?_lands {p : Char → Bool} (hr : p '\r' = false) (hn : p '\n' = true) (pre rest : Text)
    (ht : t = pre ++ rest) :
    Option.Rel (Lands t) (findFrom? p (byteSize pre) rest) (findFrom? p (byteSize (crlf pre)) (crlf rest)) := by
  induction rest generalizing pre with
  | nil => exact .none
  | cons c rest ih =>
    by_cases hc : c = '\n'
    · subst hc
      rw [crlf_feed, findFrom?, if_pos hn, findFrom?, hr, if_neg Bool.false_ne_true, findFrom?, if_pos hn]
      exact .some ⟨pre, '\n' :: rest, ht, rfl, rfl⟩
    · have hgo := ih (pre ++ [c]) (by simpa using ht)
      simp only [crlf_append, crlf_cons hc, crlf_nil, byteSize_append, byteSize_singleton] at hgo
      rw [crlf_cons hc, findFrom?, findFrom?]
      split
      · exact .some ⟨pre, c :: rest, ht, rfl, by simp [hc]⟩
      · exact hgo

/-- It, or else the end, counted from what stands before. -/
theorem find?_lands {p : Char → Bool} (hr : p '\r' = false) (hn : p '\n' = true) (pre rest : Text) :
    Lands (pre ++ rest) (byteSize pre + (find? p rest).getD (byteSize rest))
      (byteSize (crlf pre) + (find? p (crlf rest)).getD (byteSize (crlf rest))) := by
  have hrel := findFrom?_lands hr hn pre rest rfl
  have h := findFrom?_add p (byteSize pre) 0 rest
  have h' := findFrom?_add p (byteSize (crlf pre)) 0 (crlf rest)
  rw [Nat.add_zero] at h h'
  rw [h, h'] at hrel
  unfold find?
  generalize findFrom? p 0 (crlf rest) = m', findFrom? p 0 rest = m at hrel
  cases m with
  | none =>
    cases m' with
    | none => exact ⟨pre ++ rest, [], by simp, by simp, by simp⟩
    | some k' => cases hrel
  | some k =>
    cases m' with
    | none => cases hrel
    | some k' =>
      cases hrel with
      | some hk => exact hk

end Text

open Text (Lands)

/-! ## Bodies -/

/-- Whether two loops are at the same places of a text. -/
structure LoopBody.Twin (t : Text) (b b' : LoopBody) : Prop where
  header : Moves t b.header b'.header
  start : Lands t b.start b'.start
  stop : Lands t b.stop b'.stop

theorem LoopBody.ofHeader_crlf {m m' : Match} (hm : Match.Twin loopHeader [] content m m') :
    Option.Rel (LoopBody.Twin content) (LoopBody.ofHeader content m) (LoopBody.ofHeader (crlf content) m') := by
  have hlast := hm.last (c := '(') (fun x hx => eq_of_beq hx) (by decide) (by decide)
  rw [ofHeader, ofHeader, isSome_eq_of_rel (hm.group? (n := 2) (by simp))]
  split
  · exact .none
  refine rel_bind (Text.blockEnd_crlf hlast.moves) fun close close' hclose => ?_
  obtain ⟨closer, hne, hsize, hclose⟩ := hclose
  have hbehind := hclose.succ hsize hne
  dsimp only
  rw [hbehind.dropBytes_eq, Text.trimStart_crlf]
  obtain ⟨pre, rest, rfl, hstart, hstart'⟩ := hbehind
  rw [hstart, hstart', Text.dropBytes_append]
  cases hrest : Text.trimStart rest with
  | nil => exact .none
  | cons c u =>
    obtain ⟨lead, hblank, hlead, hindent, hindent'⟩ := Text.exists_lead hrest
    have hc : c ≠ '\n' := by
      rintro rfl
      cases hblank
    rw [hindent, hindent', hlead, ← Text.byteSize_append, ← Text.byteSize_append, ← crlf_append, crlf_cons hc]
    have hat : MovesAt (pre ++ (lead ++ c :: u)) c (Text.byteSize (pre ++ lead)) (Text.byteSize (crlf (pre ++ lead))) :=
      ⟨pre ++ lead, u, by simp, rfl, rfl⟩
    dsimp only
    split
    · -- a block, which ends at a bracket
      refine rel_map (Text.blockEnd_crlf hat.moves) fun stop stop' hstop => ?_
      obtain ⟨closer, hne, _, hstop⟩ := hstop
      exact ⟨hlead ▸ hm.start, hat.lands hc, hstop.lands hne⟩
    · split
      · exact .none
      · -- a statement, which may end at a line feed
        refine .some ⟨hlead ▸ hm.start, hat.lands hc, ?_⟩
        have hfind := Text.find?_lands (p := fun c => c == ';' || c == '\n') rfl rfl (pre ++ lead) (c :: u)
        rwa [crlf_cons hc, List.append_assoc] at hfind

theorem loopBodies_crlf (content : Text) :
    List.Forall₂ (LoopBody.Twin content) (loopBodies content) (loopBodies (crlf content)) :=
  List.rel_filterMap (fun _ _ hm => LoopBody.ofHeader_crlf hm) (findAll_crlf (p := loopHeader) [] (by decide) content)

theorem LoopBody.Twin.contains_eq {b b' : LoopBody} (h : LoopBody.Twin content b b') {n n' : Nat}
    (hn : Lands content n n') : b'.contains n' = b.contains n := by
  rw [LoopBody.contains, LoopBody.contains, decide_eq_decide.mpr (h.start.lt_iff hn),
    decide_eq_decide.mpr (hn.lt_iff h.stop)]

theorem LoopBody.Twin.isWithin_eq {b b' outer outer' : LoopBody} (h : LoopBody.Twin content b b')
    (houter : LoopBody.Twin content outer outer') : b'.isWithin outer' = b.isWithin outer := by
  rw [LoopBody.isWithin, LoopBody.isWithin, decide_eq_decide.mpr (houter.start.lt_iff h.start),
    decide_eq_decide.mpr (h.stop.le_iff houter.stop)]

theorem awaitsDirectly_crlf {loops loops' : List LoopBody} (hloops : List.Forall₂ (LoopBody.Twin content) loops loops')
    {awaits awaits' : List Nat} (hawaits : List.Forall₂ (Lands content) awaits awaits') {b b' : LoopBody}
    (hb : LoopBody.Twin content b b') : awaitsDirectly loops' awaits' b' = awaitsDirectly loops awaits b := by
  have hnested : List.Forall₂ (LoopBody.Twin content) (loops.filter (·.isWithin b))
      (loops'.filter (·.isWithin b')) := by
    refine List.rel_filter (fun x x' hx => ?_) hloops
    show x.isWithin b = true ↔ x'.isWithin b' = true
    rw [hx.isWithin_eq hb]
  refine any_eq_of_forall₂ hawaits fun n n' hn => ?_
  rw [hb.contains_eq hn, any_eq_of_forall₂ hnested fun x x' hx => hx.contains_eq hn]

theorem awaitInLoop_ignoresReturns : awaitInLoop.IgnoresReturns := by
  refine Rule.ignoresReturns_of rfl (by decide) fun path content hc => congrArg Spot.sort (congrArg₂ _ ?_ ?_)
  · have hawaits : List.Forall₂ (Lands content) ((awaitKeyword.findAll content).map fun m => m.start)
        ((awaitKeyword.findAll (crlf content)).map fun m => m.start) := by
      refine List.rel_map (fun m m' hm => ?_) (findAll_crlf (p := awaitKeyword) [] (by decide) content)
      obtain ⟨c, hc, hat⟩ := hm.first (by decide)
      exact hat.lands hc
    refine map_eq_of_forall₂ (List.rel_filter (fun b b' hb => ?_) (loopBodies_crlf content)) fun b b' hb =>
      Spot.atOffset_crlf hb.header _ _
    show awaitsDirectly _ _ b = true ↔ awaitsDirectly _ _ b' = true
    rw [awaitsDirectly_crlf (loopBodies_crlf content) hawaits hb]
  · exact map_eq_of_forall₂ (findAll_crlf (p := forEachAsync) [] (by decide) content) fun m m' hm =>
      Spot.atOffset_crlf hm.start _ _

end Checkup
