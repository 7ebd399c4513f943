import Checkup.Report.Data
import Checkup.Proofs.Json.Record

/-!
# Reports are read back

The report for other programs is an object with more members than a result has fields. A reader that looks for a result
in it finds the one that was reported, with the findings that the view lists.

* `ofTree_toJson` of each type: what is written is read back.
* `InRange`: the numbers fit in the words that hold them.
* `ScanResult.ofTree_dataReport`: the whole report.
-/

namespace Checkup

open Json (Numeral Tree reread)
open Json.Tree
open Json.Record

/-! ## Findings -/

theorem Severity.ofTree_toJson (s : Severity) : Severity.ofTree (ofJson s.toJson) = some s := by
  cases s <;> rfl

/-- Lines and columns are words of 32 bits. -/
def Location.InRange (l : Location) : Prop := l.line < 2 ^ 32 ∧ l.column < 2 ^ 32

theorem Location.ofTree_toJson {l : Location} (h : l.InRange) : Location.ofTree (ofJson l.toJson) = some l := by
  obtain ⟨hline, hcolumn⟩ := h
  simp [Location.ofTree, Location.toJson, word32?_ofJson hline, word32?_ofJson hcolumn]

theorem Finding.ofTree_toJson {f : Finding} (h : f.location.InRange) : Finding.ofTree (ofJson f.toJson) = some f := by
  obtain ⟨severity, ruleId, message, help, location, referenceUrl⟩ := f
  have hseverity := Severity.ofTree_toJson severity
  have hlocation := Location.ofTree_toJson h
  cases help <;> cases referenceUrl <;>
    simp [Finding.ofTree, Finding.toJson, Finding.present, hseverity, hlocation]

theorem Diagnostic.ofTree_toJson (d : Diagnostic) : Diagnostic.ofTree (ofJson d.toJson) = some d := by
  simp [Diagnostic.ofTree, Diagnostic.toJson]

/-! ## Packages -/

theorem DependencyIssue.ofTree_toJson (i : DependencyIssue) : DependencyIssue.ofTree (ofJson i.toJson) = some i := by
  obtain ⟨kind, package, message, severity⟩ := i
  have hseverity := Severity.ofTree_toJson severity
  have hkind : Tree.case? (Kind.all.map fun k => (k.name, k)) (ofJson (.string kind.name)) = some kind := by
    cases kind <;> rfl
  cases package <;> simp [DependencyIssue.ofTree, DependencyIssue.toJson, Finding.present, hseverity, hkind]

theorem VulnerabilitySeverity.ofTree_name (s : VulnerabilitySeverity) :
    VulnerabilitySeverity.ofTree (ofJson (.string s.name)) = some s := by
  cases s <;> rfl

theorem nullable?_optDouble (x : Option Float) :
    nullable? double? (ofJson (Vulnerability.optDouble x)) = some (x.bind reread) := by
  cases x with
  | none => rfl
  | some x =>
    have hsome := Json.reread_isSome x
    unfold Vulnerability.optDouble
    dsimp only [Option.bind_some]
    split
    · rename_i hfinite
      obtain ⟨y, hy⟩ := Option.isSome_iff_exists.mp (hsome.trans hfinite)
      show (double? (ofJson (.number (.real x)))).map some = some (reread x)
      rw [double?_ofJson hfinite, hy]
      rfl
    · rename_i hfinite
      rw [reread, if_neg hfinite]
      rfl

theorem Vulnerability.ofTree_toJson {v : Vulnerability} (h : v.id < 2 ^ 64) :
    Vulnerability.ofTree (ofJson v.toJson) = some { v with cvssScore := v.cvssScore.bind reread } := by
  have hseverity := VulnerabilitySeverity.ofTree_name v.severity
  have hscore := nullable?_optDouble v.cvssScore
  simp [Vulnerability.ofTree, Vulnerability.toJson, word64?_ofJson h, hseverity, hscore]

/-- Advisories have numbers of 64 bits, and so are they counted. -/
structure SecuritySummary.InRange (s : SecuritySummary) : Prop where
  vulnerabilities : ∀ v ∈ s.vulnerabilities, v.id < 2 ^ 64
  critical : s.critical < 2 ^ 64
  high : s.high < 2 ^ 64
  moderate : s.moderate < 2 ^ 64
  low : s.low < 2 ^ 64

theorem SecuritySummary.ofTree_toJson {s : SecuritySummary} (h : s.InRange) :
    SecuritySummary.ofTree (ofJson s.toJson) = some { s with
      vulnerabilities := s.vulnerabilities.map fun v => { v with cvssScore := v.cvssScore.bind reread } } := by
  have hlist := list?_ofJson fun v hv => Vulnerability.ofTree_toJson (h.vulnerabilities v hv)
  simp [SecuritySummary.ofTree, SecuritySummary.toJson, hlist, word64?_ofJson h.critical,
    word64?_ofJson h.high, word64?_ofJson h.moderate, word64?_ofJson h.low]

/-! ## Statistics -/

theorem OversizedFile.ofTree_toJson {f : OversizedFile} (h : f.lines < 2 ^ 64) :
    OversizedFile.ofTree (ofJson f.toJson) = some f := by
  simp [OversizedFile.ofTree, OversizedFile.toJson, word64?_ofJson h]

/-- Files, lines and components are counted with 64 bits. -/
structure ProjectStats.InRange (s : ProjectStats) : Prop where
  totalFiles : s.totalFiles < 2 ^ 64
  clientComponents : s.clientComponents < 2 ^ 64
  serverComponents : s.serverComponents < 2 ^ 64
  oversizedFiles : ∀ f ∈ s.oversizedFiles, f.lines < 2 ^ 64

theorem ProjectStats.ofTree_toJson {s : ProjectStats} (h : s.InRange) :
    ProjectStats.ofTree (ofJson s.toJson) = some s := by
  have hlist := list?_ofJson_self fun f hf => OversizedFile.ofTree_toJson (h.oversizedFiles f hf)
  simp [ProjectStats.ofTree, ProjectStats.toJson, hlist, word64?_ofJson h.totalFiles,
    word64?_ofJson h.clientComponents, word64?_ofJson h.serverComponents]

/-! ## The report -/

/-- The numbers of a result fit in the words that hold them. -/
structure ScanResult.InRange (r : ScanResult) : Prop where
  score : r.score < 2 ^ 8
  elapsedMs : r.elapsedMs < 2 ^ 64
  findings : ∀ f ∈ r.findings, f.location.InRange
  stats : r.stats.InRange
  security : r.security.InRange

/-- Reading the report gives the result back, with the findings of the listed severities only. The scores of advisories
are what their texts are read as. -/
theorem ScanResult.ofTree_dataReport (v : ReportView) (h : v.result.InRange) :
    (Tree.parse (dataReport v).toList).bind ScanResult.ofTree = some { v.result with
      findings := v.result.findings.filter fun f => v.severities = [] ∨ f.severity ∈ v.severities
      security := { v.result.security with
        vulnerabilities := v.result.security.vulnerabilities.map fun a =>
          { a with cvssScore := a.cvssScore.bind reread } } } := by
  have hfindings : v.findings = v.result.findings.filter fun f => v.severities = [] ∨ f.severity ∈ v.severities := by
    refine List.filter_congr fun f _ => ?_
    rw [Bool.eq_iff_iff]
    simp [ReportView.lists]
  have hlisted := list?_ofJson_self fun f (hf : f ∈ v.findings) =>
    Finding.ofTree_toJson (h.findings f (List.mem_of_mem_filter hf))
  have hissues := list?_ofJson_self fun i (_ : i ∈ v.result.dependencyIssues) => DependencyIssue.ofTree_toJson i
  have hdiagnostics := list?_ofJson_self fun d (_ : d ∈ v.result.diagnostics) => Diagnostic.ofTree_toJson d
  have hsecurity := SecuritySummary.ofTree_toJson h.security
  have hstats := ProjectStats.ofTree_toJson h.stats
  have hscore : natBelow? (pow2 8) (ofJson (.nat v.result.score)) = some v.result.score :=
    natBelow?_ofJson h.score (by decide)
  have helapsed := word64?_ofJson h.elapsedMs
  rw [dataReport, String.toList_ofList, Json.parse_pretty, ← hfindings, Option.bind_some]
  unfold reportMembers
  cases v.policy <;>
    simp [ScanResult.ofTree, hlisted, hissues, hdiagnostics, hsecurity, hstats, hscore, helapsed]

namespace ScanResult

/-- A result with something of everything. -/
def sample : ScanResult where
  score := 62
  elapsedMs := 1500
  findings := [⟨.critical, "effect-no-deps", "An \"effect\" that always runs", some "Add dependencies.",
      ⟨"src\\a.tsx", 3, 5⟩, none⟩,
    ⟨.info, "no-console", "Console", none, .file "b.ts", some "https://react.dev"⟩]
  stats := ⟨some "19.0.0", none, false, 12, 3, 9, [⟨"src/big.tsx", 640⟩], true, some "preserve", none⟩
  dependencyIssues := [⟨.unused, some "lodash", "Unused", .bestPractice⟩, ⟨.outdated, none, "Old lock file", .info⟩]
  security := ⟨[⟨1097, "next", "Bypass", .critical, "", "<15.2.3", ["CWE-285"], some 9.1⟩,
    ⟨1098, "ws", "Denial", .high, "", "<8", [], none⟩], 1, 1, 0, 0⟩
  diagnostics := [⟨"linter", "not installed"⟩]

theorem inRange_sample : sample.InRange where
  score := by decide
  elapsedMs := by decide
  findings := by simp [sample, Location.InRange, Location.file]
  stats := ⟨by decide, by decide, by decide, by decide⟩
  security := ⟨by simp [sample], by decide, by decide, by decide, by decide⟩

/-- A report of the hints only, with a policy. -/
theorem ofTree_dataReport_sample :
    (Tree.parse (dataReport ⟨sample, some (.of sample .critical), [.info], false⟩).toList).bind ScanResult.ofTree =
      some { sample with
        findings := [⟨.info, "no-console", "Console", none, .file "b.ts", some "https://react.dev"⟩] } := by
  have hnumeral : Decimal.shortestNumeral 9.1 = ⟨false, ['9'], ['1'], none⟩ := by decide +kernel
  have hquotient : Numeral.shrink (91 : Nat).toUInt64.toFloat 1 = 9.1 := by
    rw [Numeral.shrink, if_pos (by decide)]
    decide +kernel
  have hscore : reread 9.1 = some 9.1 := by
    rw [reread, if_pos (by decide +kernel), hnumeral]
    exact congrArg some hquotient
  have hread := ofTree_dataReport ⟨sample, some (.of sample .critical), [.info], false⟩ inRange_sample
  rw [hread]
  simp [sample, hscore]

end ScanResult

end Checkup
