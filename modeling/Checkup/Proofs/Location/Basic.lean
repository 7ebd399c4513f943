import Checkup.Proofs.Pattern.Shape
import Checkup.Proofs.Rule.Ownership
import Checkup.Proofs.Text.Position
import Checkup.Source.Line

/-!
# Spots on the lines of a file

`Spot.On` says that a spot is the place of a character in one of some numbered lines. Spots are made in two ways.

* From an offset in the file: the character there must be no part of a line break (`on_atOffset`). A match has such a
  character at its start if its pattern opens with one (`Match.Of.on_start`), and at its first character that is no
  blank if there is any (`Match.Of.on_inkStart`).
* From an offset in a line: there must be a character (`on_inLine`). Mostly it is the offset of a token, a part of the
  line (`Capture.PartOf`) that the rule flags (`Spot.Flags`); a `LineRule` is a rule with the tokens that it flags.

`Rule.Located` is the property of a rule that all its spots are on lines of the file.
-/

namespace Checkup

variable {t l : Text} {n offset : Nat} {message help : String} {ls ls' : List (Nat × Text)} {s : Spot}

/-- Whether a spot is the place of a character in one of the numbered lines. -/
def Spot.On (ls : List (Nat × Text)) (s : Spot) : Prop :=
  ∃ l, (s.line, l) ∈ ls ∧ 1 ≤ s.column ∧ s.column ≤ Text.byteSize l

theorem Spot.On.mono (h : s.On ls) (hls : ∀ x ∈ ls, x ∈ ls') : s.On ls' := by
  obtain ⟨l, hl, hs⟩ := h
  exact ⟨l, hls _ hl, hs⟩

theorem mem_numberedLines : (n, l) ∈ numberedLines t ↔ 1 ≤ n ∧ (Text.lines t)[n - 1]? = some l := by
  simp only [numberedLines, List.mem_map, Prod.exists, List.mem_zipIdx_iff_getElem?, Prod.mk.injEq]
  constructor
  · rintro ⟨l', i, h, rfl, rfl⟩
    exact ⟨Nat.le_add_left 1 i, h⟩
  · rintro ⟨hn, h⟩
    exact ⟨l, n - 1, h, by omega, rfl⟩

theorem codeLines_sub : ∀ x ∈ codeLines t, x ∈ numberedLines t := fun _ h => (List.mem_filter.mp h).1

/-- The indent of a text that is not blank is the offset of a character. -/
theorem Text.exists_ink (h : ∃ x ∈ t, x.isBlank = false) :
    ∃ lead x rest, t = lead ++ x :: rest ∧ indent t = byteSize lead ∧ x.isBlank = false := by
  induction t with
  | nil => simp at h
  | cons c t ih =>
    cases hc : c.isBlank with
    | false => exact ⟨[], c, t, rfl, by simp [indent, hc], hc⟩
    | true =>
      obtain ⟨y, hy, hb⟩ := h
      have hy : y ∈ t := (List.mem_cons.mp hy).resolve_left fun e => by simp [e, hc] at hb
      obtain ⟨lead, x, rest, rfl, hlead, hx⟩ := ih ⟨y, hy, hb⟩
      rw [indent] at hlead
      exact ⟨c :: lead, x, rest, rfl, by simp [indent, hc, byteSize_cons, hlead], hx⟩

/-- Whether the part is there in the text and holds a character. -/
def Capture.PartOf (t : Text) (c : Capture) : Prop :=
  c.text ≠ [] ∧ ∃ lead post, t = lead ++ (c.text ++ post) ∧ c.start = Text.byteSize lead

theorem Capture.PartOf.start_lt {c : Capture} (h : c.PartOf t) : c.start < Text.byteSize t := by
  obtain ⟨hne, lead, post, rfl, hstart⟩ := h
  have := Text.byteSize_pos hne
  simp only [Text.byteSize_append]
  omega

namespace Spot

/-- The place of a character that is no part of a line break is on its line. -/
theorem on_atOffset (pre : Text) {x : Char} {rest : Text} (hx : x ≠ '\n') (hr : x = '\r' → rest.head? ≠ some '\n') :
    (atOffset (pre ++ x :: rest) (Text.byteSize pre) message help).On (numberedLines (pre ++ x :: rest)) := by
  obtain ⟨l, hl, hle⟩ := Text.exists_line pre hx hr
  have hplace := Text.one_le_place pre
  simp only [atOffset, Text.lineCol_append]
  exact ⟨l, mem_numberedLines.mpr ⟨hplace.1, hl⟩, hplace.2, hle⟩

/-- The place of a character in a line is on that line. -/
theorem on_inLine (hl : (n, l) ∈ ls) (h : offset < Text.byteSize l) : (inLine n offset message help).On ls :=
  ⟨l, hl, Nat.le_add_left 1 offset, h⟩

/-- Whether a spot is the place of a token in one of the numbered lines, by the offset of the token in its line. -/
def Flags (tokens : Text → List Capture) (ls : List (Nat × Text)) (s : Spot) : Prop :=
  ∃ line c, (s.line, line) ∈ ls ∧ c ∈ tokens line ∧ s.column = c.start + 1

theorem Flags.mono {tokens : Text → List Capture} (h : s.Flags tokens ls) (hls : ∀ x ∈ ls, x ∈ ls') :
    s.Flags tokens ls' := by
  obtain ⟨line, c, hline, hc⟩ := h
  exact ⟨line, c, hls _ hline, hc⟩

theorem flags_inLine {tokens : Text → List Capture} {c : Capture} (hl : (n, l) ∈ ls) (hc : c ∈ tokens l) :
    (inLine n c.start message help).Flags tokens ls := ⟨l, c, hl, hc, rfl⟩

/-- The place of a part of a line is on that line. -/
theorem Flags.on {tokens : Text → List Capture} (h : s.Flags tokens ls)
    (hpart : ∀ line, ∀ c ∈ tokens line, c.PartOf line) : s.On ls := by
  obtain ⟨line, c, hline, hc, hcolumn⟩ := h
  exact ⟨line, hline, by omega, hcolumn ▸ (hpart line c hc).start_lt⟩

theorem mem_sort {spots : List Spot} : s ∈ sort spots ↔ s ∈ spots := List.mem_mergeSort

end Spot

/-! ## Matches -/

namespace Match.Of

variable {p : Pattern} {m : Match} {pre w post : Text} {g : Pattern.Marks}

/-- A match of a pattern that opens with no part of a line break starts on a line. -/
theorem on_start (h : m.Of p t pre w post g) (hp : p.opens ['\n', '\r'] = true) :
    (Spot.atOffset t m.start message help).On (numberedLines t) := by
  obtain ⟨x, w, rfl, hx⟩ := Pattern.opens_takes hp h.takes
  simp only [List.mem_cons, List.not_mem_nil, or_false, not_or] at hx
  rw [h.eq, h.text_eq]
  exact Spot.on_atOffset pre hx.1 fun e => absurd e hx.2

/-- A match that holds a character that is no blank has the first one on a line. -/
theorem on_inkStart (h : m.Of p t pre w post g) (hp : p.inks = true) :
    (Spot.atOffset t m.inkStart message help).On (numberedLines t) := by
  obtain ⟨lead, x, rest, rfl, hlead, hx⟩ := Text.exists_ink (Pattern.inks_takes hp h.takes)
  have hstart : m.inkStart = Text.byteSize (pre ++ lead) := by
    rw [h.eq, Text.byteSize_append, ← hlead]
    rfl
  rw [hstart, h.text_eq, List.append_assoc, ← List.append_assoc pre]
  refine Spot.on_atOffset _ ?_ ?_
  · rintro rfl; cases hx
  · rintro rfl; cases hx

/-- A match of a pattern that takes a character is a part of the text. -/
theorem partOf (h : m.Of p t pre w post g) (hp : p.opens [] = true) : m.toCapture.PartOf t := by
  obtain ⟨x, w, rfl, _⟩ := Pattern.opens_takes hp h.takes
  rw [h.eq]
  exact ⟨List.cons_ne_nil x w, pre, post, h.text_eq, rfl⟩

/-- So is a group that takes a character. -/
theorem group_partOf (h : m.Of p t pre w post g) {k : Nat} {c : Capture} (hc : m.group? k = some c)
    (hp : p.eachGroup k (Pattern.opens []) = true) : c.PartOf t := by
  obtain ⟨q, pre', w', post', g₁, g₂, hq, hw, htext, rfl⟩ := h.group? _ hc hp
  obtain ⟨x, w', rfl, _⟩ := Pattern.opens_takes hq hw
  exact ⟨List.cons_ne_nil x w', pre', post', htext, rfl⟩

/-- Or one of two such groups. -/
theorem or_partOf (h : m.Of p t pre w post g) {j k : Nat} {c : Capture} (hc : (m.group? j).or (m.group? k) = some c)
    (hj : p.eachGroup j (Pattern.opens []) = true) (hk : p.eachGroup k (Pattern.opens []) = true) : c.PartOf t := by
  rcases Option.or_eq_some_iff.mp hc with hc | ⟨_, hc⟩
  · exact h.group_partOf hc hj
  · exact h.group_partOf hc hk

end Match.Of

/-! ## Rules -/

/-- Whether all spots that the rule reports are on lines of the file. -/
def Rule.Located (r : Rule) : Prop :=
  ∃ spots, r.ReportsSpots spots ∧ ∀ path content, ∀ s ∈ spots path content, s.On (numberedLines content)

/-- A rule that looks at the lines of a file one by one and reports the places of tokens in them. -/
structure LineRule where
  rule : Rule
  /-- the parts of a line that the rule may report -/
  tokens : Text → List Capture
  partOf : ∀ line, ∀ c ∈ tokens line, c.PartOf line
  flags : ∃ spots, rule.ReportsSpots spots ∧
    ∀ path content, ∀ s ∈ spots path content, s.Flags tokens (numberedLines content)

theorem LineRule.located (r : LineRule) : r.rule.Located := by
  obtain ⟨spots, hspots, hflags⟩ := r.flags
  exact ⟨spots, hspots, fun path content s hs => (hflags path content s hs).on r.partOf⟩

namespace Pattern

/-- The first match in a line. -/
def firstToken (p : Pattern) (line : Text) : List Capture := ((p.find line).map Match.toCapture).toList

/-- All matches in a line. -/
def allTokens (p : Pattern) (line : Text) : List Capture := (p.findAll line).map Match.toCapture

theorem firstToken_partOf {p : Pattern} (hp : p.opens [] = true) (line : Text) :
    ∀ c ∈ p.firstToken line, c.PartOf line := by
  intro c hc
  obtain ⟨m, hm, rfl⟩ := Option.map_eq_some_iff.mp (Option.mem_toList.mp hc)
  obtain ⟨pre, w, post, g, hof⟩ := find_of hm
  exact hof.partOf hp

theorem allTokens_partOf {p : Pattern} (hp : p.opens [] = true) (line : Text) :
    ∀ c ∈ p.allTokens line, c.PartOf line := by
  intro c hc
  obtain ⟨m, hm, rfl⟩ := List.mem_map.mp hc
  obtain ⟨pre, w, post, g, hof⟩ := findAll_of hm
  exact hof.partOf hp

theorem mem_firstToken {p : Pattern} {line : Text} {m : Match} (h : p.find line = some m) :
    m.toCapture ∈ p.firstToken line := by
  rw [firstToken, h]
  exact List.mem_singleton_self _

theorem mem_allTokens {p : Pattern} {line : Text} {m : Match} (h : m ∈ p.findAll line) :
    m.toCapture ∈ p.allTokens line := List.mem_map_of_mem h

/-- Where each match in some of the lines gives a spot, the spots are places of matches. -/
theorem flags_allTokens {p : Pattern} {message : Match → String} (hls : ∀ x ∈ ls, x ∈ ls')
    (hs : s ∈ ls.flatMap fun (n, line) => (p.findAll line).map fun m => Spot.inLine n m.start (message m) help) :
    s.Flags p.allTokens ls' := by
  simp only [List.mem_flatMap, List.mem_map, Prod.exists] at hs
  obtain ⟨n, line, hline, m, hm, rfl⟩ := hs
  exact Spot.flags_inLine (hls _ hline) (mem_allTokens hm)

end Pattern

end Checkup
