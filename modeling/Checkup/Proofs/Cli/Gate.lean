import Checkup.Cli.Run
import Checkup.Proofs.Report.Listing

/-!
# The exit code of a run

A run that scans prints nothing if something is wrong with what the user gave (`Arguments.run_of_misconfigured`), and
otherwise reports on what the scan found (`Arguments.run_of_configured`). The exit code is about all that the scan
found, however much of it the report lists: options for the report change neither the exit code nor what the report
tells of the score, the counts and the policy (`Arguments.run_gate`).

* `Arguments.Misconfigured`: what the user gave makes a scan impossible.
* `ScanResult.Holds`: something counts with a severity.
* `Tally`: the score, the counts and what the policy says, and `ScanResult.tally`: those of a result.
* `ReportFormat.Tells`: how a report tells a tally.
-/

namespace Checkup

open Json (Tree)

/-! ## What a scan needs -/

/-- All of a list is mapped if each member is. -/
theorem isOk_mapM {α β ε : Type} (f : α → Except ε β) (l : List α) :
    (l.mapM f).isOk = l.all fun a => (f a).isOk := by
  induction l with
  | nil => rfl
  | cons a l ih =>
    rw [List.mapM_cons, List.all_cons, ← ih]
    cases f a with
    | error e => rfl
    | ok b => cases l.mapM f <;> rfl

/-- Whether a pattern of the user is a glob. -/
def isPattern (pattern : String) : Bool := (Glob.parse filterOptions (normalPattern pattern).toList).isOk

theorem isOk_filterGlobs (patterns : List String) : (filterGlobs patterns).isOk = patterns.all isPattern := by
  rw [filterGlobs, isOk_mapM]
  congr 1
  funext pattern
  unfold filterGlob isPattern
  dsimp only
  cases Glob.parse filterOptions (normalPattern pattern).toList <;> rfl

theorem isOk_collectSources (f : Folder) (root : String) (exclude : List Glob) :
    (collectSources f root exclude).isOk = f.isDirAt root := by
  unfold collectSources Folder.isDirAt
  cases f.resolve root with
  | none => rfl
  | some dir => cases hdir : f.isDir dir <;> simp [hdir, Except.isOk, Except.toBool]

/-- There is a scan if all patterns are globs and the root is a directory. -/
theorem ScanOptions.isOk_scan (o : ScanOptions) (box : Toolbox) (f : Folder) (elapsedMs : Nat) :
    (o.scan box f elapsedMs).isOk = (o.settings.ignoredPaths.all isPattern && f.isDirAt o.root) := by
  rw [← isOk_filterGlobs, scan, sources]
  cases filterGlobs o.settings.ignoredPaths with
  | error fault => rfl
  | ok exclude =>
    rw [← isOk_collectSources f o.root exclude]
    show (collectSources f o.root exclude >>= _).isOk = _
    cases collectSources f o.root exclude <;> rfl

/-- Of two scans of a project, only the times differ. -/
theorem ScanOptions.scan_elapsed (o : ScanOptions) (box : Toolbox) (f : Folder) (elapsedMs elapsedMs' : Nat) :
    o.scan box f elapsedMs' = (o.scan box f elapsedMs).map fun r => { r with elapsedMs := elapsedMs' } := by
  rw [scan, scan]
  cases o.sources f <;> rfl

/-! ## What fails a policy -/

/-- Something was found that counts with the severity: a finding, an issue of a dependency or an advisory. -/
def ScanResult.Holds (r : ScanResult) (s : Severity) : Prop :=
  (∃ f ∈ r.findings, f.severity = s) ∨ (∃ i ∈ r.dependencyIssues, i.severity = s) ∨
    ∃ v ∈ r.security.vulnerabilities, v.severity.asFinding = s

theorem PolicyOutcome.shouldFail_of (r : ScanResult) (target : Severity) :
    (PolicyOutcome.of r target).shouldFail = true ↔ r.Holds target := by
  simp only [shouldFail, total, of, decide_eq_true_eq, Nat.add_pos_iff_pos_or_pos, List.count_pos_iff, List.mem_map,
    ScanResult.Holds, or_assoc]

/-! ## What reports tell -/

/-- What reports tell of all that a scan found, whatever findings they list. -/
structure Tally where
  score : Nat
  /-- how many findings there are of each severity -/
  counts : SeverityCounts
  policy : Option PolicyOutcome

namespace ScanResult

variable (r : ScanResult) (s : Severity)

/-- The number of findings of the severity. -/
def findingsOf : Nat := (r.findings.filter fun f => f.severity = s).length

/-- The number of issues of dependencies with the severity. -/
def issuesOf : Nat := (r.dependencyIssues.filter fun i => i.severity = s).length

/-- The number of advisories that count with the severity. -/
def advisoriesOf : Nat := (r.security.vulnerabilities.filter fun v => v.severity.asFinding = s).length

/-- The number of all that counts with the severity. -/
def allOf : Nat := r.findingsOf s + r.issuesOf s + r.advisoriesOf s

/-- The tally of a result, with a policy if there is a target. -/
def tally (target : Option Severity) : Tally where
  score := r.score
  counts := ⟨r.findingsOf .critical, r.findingsOf .performance, r.findingsOf .bestPractice, r.findingsOf .info⟩
  policy := target.map fun t =>
    { target := t
      findingMatches := r.findingsOf t
      dependencyMatches := r.issuesOf t
      vulnerabilityMatches := r.advisoriesOf t
      breakdown := ⟨r.allOf .critical, r.allOf .performance, r.allOf .bestPractice, r.allOf .info⟩ }

end ScanResult

theorem count_map_eq {α : Type} (f : α → Severity) (l : List α) (s : Severity) :
    (l.map f).count s = (l.filter fun a => f a = s).length := by
  rw [List.count, List.countP_map, List.countP_eq_length_filter]
  rfl

/-- The tally has the counts and the policy of the result. -/
theorem ScanResult.tally_eq (r : ScanResult) (target : Option Severity) :
    r.tally target = ⟨r.score, r.counts, target.map (PolicyOutcome.of r)⟩ := by
  unfold tally counts PolicyOutcome.of SeverityCounts.ofList
  simp only [List.count_append, count_map_eq]
  rfl

/-- How a report in the format tells a tally. A report for readers begins with the score and the counts. The policy
is the last line on a terminal, and in Markdown the last one in front of the findings. -/
def ReportFormat.Tells (useColor : Bool) (time : String) (elapsedMs : Nat) (t : Tally) :
    ReportFormat → String → Prop
  | .text, report => ∃ header summary body seconds policy, Terminal.IsHeader useColor t.score header ∧
      Terminal.IsSummary useColor t.counts summary ∧
      Terminal.IsTime useColor (secondsText elapsedMs) seconds ∧ Terminal.IsPolicy useColor t.policy policy ∧
      report = header ++ summary ++ body ++ seconds ++ policy
  | .json, report => ∃ members counts, Tree.parse report.toList = some (Tree.ofJson (.object members)) ∧
      members.lookup "score" = some (.nat t.score) ∧
      members.lookup "counts" = some counts ∧ t.counts.IsObject counts ∧
      match t.policy with
      | none => members.lookup "policy" = none
      | some p => ∃ outcome, members.lookup "policy" = some outcome ∧ p.IsObject outcome
  | .markdown, report => ∃ header summary body, Markdown.IsHeader time t.score header ∧
      Markdown.IsSummary t.counts (secondsText elapsedMs) t.policy summary ∧
      report = header ++ "\n" ++ summary ++ "\n" ++ "## Findings\n\n" ++ body

/-- A report tells the tally of the whole result, whatever findings it lists. -/
theorem ReportView.write_tells (v : ReportView) (format : ReportFormat) (useColor : Bool) (time : String) :
    format.Tells useColor time v.result.elapsedMs ⟨v.result.score, v.result.counts, v.policy⟩
      (v.write format useColor time) := by
  cases format with
  | text =>
    obtain ⟨facts, seconds, policy, hfooter, hseconds, hpolicy⟩ := Terminal.footer_shows useColor v
    refine ⟨_, _, Terminal.findings useColor v ++ Terminal.dependencies useColor v.result ++
      Terminal.security useColor v.result.security ++ facts, _, _, Terminal.header_shows v.result,
      Terminal.summary_shows v.result, hseconds, hpolicy, ?_⟩
    simp only [write, terminalReport, hfooter, String.join_cons, String.join_nil, String.append_assoc,
      String.append_empty]
  | json =>
    refine ⟨reportMembers v, _, parse_dataReport v, rfl, rfl, v.result.counts.toJson_isObject, ?_⟩
    cases hpolicy : v.policy with
    | none => simp [reportMembers, hpolicy, List.lookup_cons]
    | some p => exact ⟨_, by simp [reportMembers, hpolicy, List.lookup_cons], p.toJson_isObject⟩
  | markdown =>
    refine ⟨_, _, (Markdown.noSections v ++ String.join (v.sections.map Markdown.section)) ++ "\n" ++
      Markdown.dependencies v.result ++ Markdown.security v.result.security ++
        Markdown.project v.result.stats ++ "\n" ++
      Markdown.footer, Markdown.header_shows time v.result, Markdown.summary_shows v, ?_⟩
    simp only [write, markdownReport_eq, String.join_cons, String.join_nil, String.append_assoc, String.append_empty]

/-! ## Runs -/

namespace Arguments

variable (a : Arguments) (s : Surroundings)

/-- What the user gave is of no use: the settings name a severity that there is not, a pattern is no glob, or the root
is no directory. -/
def Misconfigured (f : Folder) : Prop :=
  let settings := Settings.load f a.path
  (∃ name, settings.failOn = some name ∧ Severity.parse name = none) ∨
    (∃ pattern ∈ settings.ignoredPaths, isPattern pattern = false) ∨ f.isDirAt a.path = false

/-- The severity of which nothing may be found. -/
def target (f : Folder) : Option Severity := a.failOn.or ((Settings.load f a.path).failOn.bind Severity.parse)

/-- The result of the scan. -/
def scanned : Except ConfigFault ScanResult :=
  (a.scanOptions (Settings.load s.folder a.path)).scan s.box s.folder s.elapsedMs

/-- The run prints a report, which tells the tally. -/
def Reports (t : Tally) : Prop :=
  ∃ report, (a.run s).output = printed report ∧ a.format.Tells s.useColor s.time s.elapsedMs t report

theorem isOk_scanned : (a.scanned s).isOk =
    ((Settings.load s.folder a.path).ignoredPaths.all isPattern && s.folder.isDirAt a.path) :=
  ScanOptions.isOk_scan _ _ _ _

variable {a s}

/-- What is wrong with what the user gave shows in the settings or in the scan. -/
theorem misconfigured_iff : a.Misconfigured s.folder ↔
    ((Settings.load s.folder a.path).failOn.any fun name => (Severity.parse name).isNone) = true ∨
      (a.scanned s).isOk = false := by
  rw [isOk_scanned, Bool.and_eq_false_iff, List.all_eq_false, Option.any_eq_true]
  simp only [Misconfigured, Option.isNone_iff_eq_none, Bool.not_eq_true]

/-- The settings have to be right even if the arguments go before them. -/
theorem failOnSeverity_eq (settings : Settings) : a.failOnSeverity settings =
    if settings.failOn.any fun name => (Severity.parse name).isNone then
      .error (.unknownSeverity (settings.failOn.getD ""))
    else .ok (a.failOn.or (settings.failOn.bind Severity.parse)) := by
  unfold failOnSeverity Settings.failOnSeverity
  cases settings.failOn with
  | none => rfl
  | some name => cases hname : Severity.parse name <;> simp [hname, bind, Except.bind, pure, Except.pure]

/-- What the run is about to report: the result of the scan with the policy for the target. -/
theorem view_eq (h : ¬ a.Misconfigured s.folder) : ∃ r, a.scanned s = .ok r ∧
    a.view s (Settings.load s.folder a.path) =
      .ok ⟨r, (a.target s.folder).map (PolicyOutcome.of r), a.severities, a.showAll⟩ := by
  rw [misconfigured_iff, not_or] at h
  obtain ⟨hname, hok⟩ := h
  cases hscan : a.scanned s with
  | error fault =>
    rw [hscan] at hok
    exact absurd rfl hok
  | ok r =>
    refine ⟨r, rfl, ?_⟩
    rw [scanned] at hscan
    rw [view, failOnSeverity_eq, if_neg hname, hscan]
    rfl

theorem view_of_misconfigured (h : a.Misconfigured s.folder) :
    ∃ fault, a.view s (Settings.load s.folder a.path) = .error fault := by
  rw [misconfigured_iff] at h
  rw [view, failOnSeverity_eq]
  split
  · exact ⟨_, rfl⟩
  · rename_i hname
    cases hscan : a.scanned s with
    | error fault =>
      rw [scanned] at hscan
      rw [hscan]
      exact ⟨fault, rfl⟩
    | ok r =>
      rw [hscan] at h
      exact absurd (h.resolve_left hname) Bool.noConfusion

theorem run_of_misconfigured (hlist : a.listRules = false) (h : a.Misconfigured s.folder) :
    (a.run s).output = "" ∧ (a.run s).exitCode = 1 := by
  obtain ⟨fault, hview⟩ := view_of_misconfigured h
  have hrun : a.run s = s.stopped fault := by
    unfold run
    simp only [hlist, hview, Bool.false_eq_true, if_false]
  rw [hrun]
  exact ⟨rfl, rfl⟩

theorem scanned_elapsed {r : ScanResult} (h : a.scanned s = .ok r) : r.elapsedMs = s.elapsedMs := by
  rw [scanned, ScanOptions.scan] at h
  cases hsources : (a.scanOptions (Settings.load s.folder a.path)).sources s.folder with
  | error fault =>
    rw [hsources] at h
    cases h
  | ok files =>
    rw [hsources] at h
    exact Except.ok.inj h ▸ rfl

/-- A run that scans reports the tally of the scan with the target, and fails if the policy does. -/
theorem run_of_configured (hlist : a.listRules = false) (hmarkdown : a.markdown = none)
    (h : ¬ a.Misconfigured s.folder) :
    ∃ r, a.scanned s = .ok r ∧ a.Reports s (r.tally (a.target s.folder)) ∧ (a.run s).exitCode =
      if ((a.target s.folder).map (PolicyOutcome.of r)).any PolicyOutcome.shouldFail then 1 else 0 := by
  obtain ⟨r, hscan, hview⟩ := view_eq h
  let v : ReportView := ⟨r, (a.target s.folder).map (PolicyOutcome.of r), a.severities, a.showAll⟩
  obtain ⟨notices, folder, commands, hrun⟩ : ∃ notices folder commands, a.run s =
      ⟨printed (v.write a.format s.useColor s.time), notices, none, v.policy, folder, commands⟩ := by
    unfold run
    simp only [hlist, hview, Bool.false_eq_true, if_false, report, writeMarkdown, hmarkdown]
    exact ⟨_, _, _, rfl⟩
  have htells := v.write_tells a.format s.useColor s.time
  rw [show v.result.elapsedMs = s.elapsedMs from scanned_elapsed hscan] at htells
  refine ⟨r, hscan, ⟨v.write a.format s.useColor s.time, ?_, r.tally_eq _ ▸ htells⟩, ?_⟩
  · rw [hrun]
  · rw [hrun]
    rfl

/-- The policy for the target fails if something of the target's severity was found. -/
theorem policy_fails_iff {r : ScanResult} {target : Option Severity} :
    (target.map (PolicyOutcome.of r)).any PolicyOutcome.shouldFail = true ↔ ∃ t, target = some t ∧ r.Holds t := by
  cases target with
  | none => simp
  | some t => simp [PolicyOutcome.shouldFail_of]

/-- What a report shows does not matter to the scan, and of the result only the time differs from run to run. -/
theorem scanned_with {r : ScanResult} (h : a.scanned s = .ok r) (format : ReportFormat) (severities : List Severity)
    (showAll useColor : Bool) (elapsedMs : Nat) (time : String) :
    { a with format := format, severities := severities, showAll := showAll }.scanned
      { s with useColor := useColor, elapsedMs := elapsedMs, time := time } =
        .ok { r with elapsedMs := elapsedMs } := by
  have helapsed := ScanOptions.scan_elapsed (a.scanOptions (Settings.load s.folder a.path)) s.box s.folder
    s.elapsedMs elapsedMs
  rw [scanned] at h
  rw [h] at helapsed
  exact helapsed

/-- **The exit code of a run.** If what the user gave is of no use, the run fails and prints nothing. Otherwise it
reports the tally of the scan, and fails if there is a target and something of exactly that severity was found. Another
format and other findings that the report lists change neither the exit code nor the tally that the report tells. -/
theorem run_gate (hlist : a.listRules = false) (hmarkdown : a.markdown = none) :
    (a.Misconfigured s.folder → (a.run s).output = "" ∧ (a.run s).exitCode = 1) ∧
    (¬ a.Misconfigured s.folder → ∃ r, a.scanned s = .ok r ∧ a.Reports s (r.tally (a.target s.folder)) ∧
      ((a.run s).exitCode = 1 ↔ ∃ t, a.target s.folder = some t ∧ r.Holds t) ∧
      ((a.run s).exitCode = 0 ↔ ¬ ∃ t, a.target s.folder = some t ∧ r.Holds t)) ∧
    (∀ format severities showAll useColor elapsedMs time,
      let b := { a with format := format, severities := severities, showAll := showAll }
      let s' := { s with useColor := useColor, elapsedMs := elapsedMs, time := time }
      (b.run s').exitCode = (a.run s).exitCode ∧
      (a.Misconfigured s.folder → (b.run s').output = "") ∧
      (¬ a.Misconfigured s.folder → ∃ r, a.scanned s = .ok r ∧ a.Reports s (r.tally (a.target s.folder)) ∧
        b.Reports s' (r.tally (a.target s.folder)))) := by
  refine ⟨run_of_misconfigured hlist, fun h => ?_, fun format severities showAll useColor elapsedMs time => ?_⟩
  · obtain ⟨r, hscan, hreports, hexit⟩ := run_of_configured hlist hmarkdown h
    refine ⟨r, hscan, hreports, ?_⟩
    rw [← policy_fails_iff, hexit]
    cases ((a.target s.folder).map (PolicyOutcome.of r)).any PolicyOutcome.shouldFail <;> simp
  · intro b s'
    by_cases h : a.Misconfigured s.folder
    · obtain ⟨_, hexit⟩ := run_of_misconfigured hlist h
      obtain ⟨houtput', hexit'⟩ := run_of_misconfigured (a := b) (s := s') hlist h
      exact ⟨hexit'.trans hexit.symm, fun _ => houtput', fun hn => absurd h hn⟩
    · obtain ⟨r, hscan, hreports, hexit⟩ := run_of_configured hlist hmarkdown h
      obtain ⟨r', hscan', hreports', hexit'⟩ := run_of_configured (a := b) (s := s') hlist hmarkdown h
      -- the target is the same, and neither the tally nor the policy looks at the time
      have hr : { r with elapsedMs := elapsedMs } = r' :=
        Except.ok.inj ((scanned_with hscan format severities showAll useColor elapsedMs time).symm.trans hscan')
      subst hr
      exact ⟨hexit'.trans hexit.symm, fun hm => absurd hm h, fun _ => ⟨r, hscan, hreports, hreports'⟩⟩

/-- The settings name a severity that there is not, so the one among the arguments is of no use. Without settings, an
empty project has nothing of that severity. -/
theorem run_gate_pair :
    let a := { Arguments.standard with format := .json, failOn := some .critical, noLint := true, noAudit := true }
    let settings : StoredFile := ⟨[Settings.fileName], "[defaults]\nfail_on = \"high\"\n".toUTF8.toList⟩
    let s (f : Folder) : Surroundings := ⟨.empty, f, false, 7, "2025-01-01 00:00:00"⟩
    ((a.run (s ⟨[settings], []⟩)).output = "" ∧ (a.run (s ⟨[settings], []⟩)).exitCode = 1) ∧
      ∃ r, a.scanned (s ⟨[], []⟩) = .ok r ∧
        a.Reports (s ⟨[], []⟩) (r.tally (some .critical)) ∧
        ((a.run (s ⟨[], []⟩)).exitCode = 1 ↔ ∃ t, some Severity.critical = some t ∧ r.Holds t) := by
  intro a settings s
  have hbad : a.Misconfigured ⟨[settings], []⟩ := Or.inl ⟨"high", by decide +kernel, by decide⟩
  have hgood : ¬ a.Misconfigured ⟨[], []⟩ := by
    have hload : Settings.load ⟨[], []⟩ a.path = .standard := by decide
    have hroot : Folder.isDirAt ⟨[], []⟩ a.path = true := by decide
    simp [Misconfigured, hload, hroot, Settings.standard]
  obtain ⟨r, hscan, hreports, hexit, _⟩ := (run_gate (a := a) (s := s ⟨[], []⟩) rfl rfl).2.1 hgood
  exact ⟨(run_gate (a := a) (s := s ⟨[settings], []⟩) rfl rfl).1 hbad, r, hscan, hreports, hexit⟩

end Arguments

end Checkup
