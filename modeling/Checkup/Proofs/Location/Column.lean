import Checkup.Proofs.Location.Component
import Checkup.Proofs.Text.Boundary

/-!
# Columns of tokens

Rules that look at lines one by one report the byte offset of a token in its line, and the other rules the place of a
token in the file, whose column counts characters. The line is the same, and the column is if and only if all characters
in front of the token on its line take one byte.

* `lineRules`: the rules that look at lines one by one, with the tokens that they report.
* `Capture.StandsIn`: where a token of a line stands in the file; `Capture.StandsIn.lineCol_eq` is its place.
* `lineRules_columns`: the two columns of a token that such a rule reports.
-/

namespace Checkup

/-- The rules that look at the lines of a file one by one. -/
def lineRules (tables : RuleTables) : List LineRule :=
  [unauthenticatedActionLines tables, secretInClientLines, inlineActionInClientLines, browserApiLines tables,
    nondeterministicLines tables, rawImageLines, nestedComponentLines, indexMapsLines, setLookupsLines, noConsoleLines,
    combineIterationsLines]

/-- They are rules of the catalog. -/
theorem lineRules_sub (tables : RuleTables) : ∀ r ∈ lineRules tables, r.rule ∈ builtinRules tables := by
  simp [lineRules, builtinRules, unauthenticatedActionLines, secretInClientLines, inlineActionInClientLines,
    browserApiLines, nondeterministicLines, rawImageLines, nestedComponentLines, indexMapsLines, setLookupsLines,
    noConsoleLines, combineIterationsLines]

example : (lineRules .standard).map (·.rule.info.id) =
    ["server-auth-actions", "server-secret-in-client", "server-inline-action-in-client",
      "rendering-hydration-browser-api", "rendering-hydration-nondeterministic", "rendering-next-image",
      "architecture-nested-component", "js-index-maps", "js-set-lookups", "js-no-console",
      "js-combine-iterations"] := rfl

variable {content front lead : Text} {c : Capture}

/-- Whether the token stands in the file behind the lines `front` and behind `lead` on its line. -/
structure Capture.StandsIn (content front lead : Text) (c : Capture) : Prop where
  endsLine : front.EndsLine
  unbroken : '\n' ∉ lead
  start_eq : c.start = Text.byteSize lead
  text_eq : ∃ tail, content = front ++ (lead ++ (c.text ++ tail))

namespace Capture

/-- The place of a token: the lines in front of its line, and the characters in front of it. -/
theorem StandsIn.lineCol_eq (h : c.StandsIn content front lead) :
    Text.lineCol content (Text.byteSize (front ++ lead)) = ((Text.lines front).length + 1, lead.length + 1) := by
  obtain ⟨tail, rfl⟩ := h.text_eq
  exact Text.lineCol_line h.endsLine h.unbroken _

/-- A part of a line stands in the file. -/
theorem PartOf.standsIn {n : Nat} {line : Text} (h : c.PartOf line) (hline : (n, line) ∈ numberedLines content) :
    ∃ front lead, c.StandsIn content front lead ∧ n = (Text.lines front).length + 1 := by
  obtain ⟨hn, hget⟩ := mem_numberedLines.mp hline
  obtain ⟨front, tail, rfl, hfront, hlength, hbreak⟩ := Text.exists_around_line hget
  obtain ⟨-, lead, post, rfl, hstart⟩ := h
  have hlead : '\n' ∉ lead := fun hmem => hbreak (List.mem_append_left _ hmem)
  exact ⟨front, lead, ⟨hfront, hlead, hstart, post ++ tail, by simp⟩, by omega⟩

end Capture

/-- Whether the location is about a token that the rule reports: it has the line of the token, and the column counts the
bytes in front of the token on its line. -/
def LineRule.Reports (r : LineRule) (content front lead : Text) (l : Location) : Prop :=
  ∃ line, (l.line, line) ∈ numberedLines content ∧ ∃ c ∈ r.tokens line, c.StandsIn content front lead ∧
    l.line = (Text.lines front).length + 1 ∧ l.column = Text.byteSize lead + 1

/-- A finding of a line rule is about a token of a line. -/
theorem LineRule.exists_reports (r : LineRule) {path : String} {fs : List Finding}
    (hd : r.rule.detect path content = .ok fs)
    {f : Finding} (hf : f ∈ fs) : ∃ front lead, r.Reports content front lead f.location := by
  obtain ⟨spots, hspots, hflags⟩ := r.flags
  rw [hspots.detect_eq, Except.ok.injEq] at hd
  subst hd
  split at hf
  · obtain ⟨s, hs, rfl⟩ := List.mem_map.mp hf
    obtain ⟨line, c, hline, hc, hcolumn⟩ := hflags path content s hs
    obtain ⟨front, lead, hstands, hn⟩ := (r.partOf line c hc).standsIn hline
    exact ⟨front, lead, line, hline, c, hc, hstands, hn, by rw [← hstands.start_eq]; exact hcolumn⟩
  · cases hf

/-- **Columns of tokens.** A rule that looks at lines one by one gives a result on every file, and each finding is
about a token on the reported line. Let `o` be the byte offset of the token in the file. The line is that of `o`, and
the column counts the bytes in front of the token on its line, where that of `o` counts the characters. So the finding
has the place of `o` if and only if each of these characters takes one byte. -/
theorem lineRules_columns (tables : RuleTables) (path : String) (content : Text) :
    ∀ r ∈ lineRules tables, ∃ fs, r.rule.detect path content = .ok fs ∧
      ∀ f ∈ fs, ∃ front lead, r.Reports content front lead f.location ∧
        let o := Text.byteSize (front ++ lead)
        Text.lineCol content o = (f.location.line, lead.length + 1) ∧
          ((f.location.line, f.location.column) = Text.lineCol content o ↔ ∀ x ∈ lead, x.utf8Size = 1) := by
  intro r _
  obtain ⟨spots, hspots, -⟩ := r.flags
  refine ⟨_, hspots.detect_eq path content, fun f hf => ?_⟩
  obtain ⟨front, lead, hreports⟩ := r.exists_reports (hspots.detect_eq path content) hf
  refine ⟨front, lead, hreports, ?_⟩
  obtain ⟨line, -, c, -, hstands, hn, hcolumn⟩ := hreports
  simp only [hstands.lineCol_eq, hn, hcolumn, Prod.mk.injEq, true_and, Nat.add_right_cancel_iff]
  exact Text.byteSize_eq_length_iff

/-- A message behind a tab, on a line below one with an accent. -/
theorem lineRules_columns_console :
    let content := "let é\r\n\tconsole.log(é)".toList
    noConsoleLines ∈ lineRules .standard ∧
      (noConsole.detect "a.ts" content).toOption.map (·.map fun f => (f.location.line, f.location.column)) =
        some [(2, 2)] ∧
      ∃ fs, noConsole.detect "a.ts" content = .ok fs ∧
        ∀ f ∈ fs, ∃ front lead, noConsoleLines.Reports content front lead f.location ∧
          let o := Text.byteSize (front ++ lead)
          Text.lineCol content o = (f.location.line, lead.length + 1) ∧
            ((f.location.line, f.location.column) = Text.lineCol content o ↔ ∀ x ∈ lead, x.utf8Size = 1) := by
  have hmem : noConsoleLines ∈ lineRules .standard := by simp [lineRules]
  exact ⟨hmem, by decide +kernel, lineRules_columns .standard "a.ts" _ noConsoleLines hmem⟩

/-- Behind an accent on the same line the message starts at the 16th character, and the finding points to the 17th. -/
theorem noConsole_column_bytes :
    let content := "const s = \"é\"; console.log(s);\n".toList
    Text.startsWith "console.log(".toList (Text.dropBytes 16 content) = true ∧ Text.lineCol content 16 = (1, 16) ∧
      (noConsole.detect "a.ts" content).toOption.map (·.map fun f => (f.location.line, f.location.column)) =
        some [(1, 17)] := by
  decide +kernel

end Checkup
