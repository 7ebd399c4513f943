import Mathlib.Data.List.Dedup
import Checkup.Proofs.Aggregation
import Checkup.Proofs.Project.Malformed
import Checkup.Proofs.Sweep.Fault

/-!
# Files that a project ignores

A scan that ignores files finds what a scan finds where these files are taken out, but for one thing: the configuration
of Next.js is looked at whether it is ignored or not (`ScanOptions.scan_ignoring`).

* `Folder.withoutIgnored`: the folder without the source files that the globs match.
* `Folder.eraseAll_eq`: what does not change with one file that is taken out does not change with all of them.
* `ScanOptions.sources_ignoring`, `ScanOptions.inputs_withoutIgnored`: both scans have the same source files, and their
  parts find the same but for the configuration.
* `ScanOptions.finding_ignored`: what can be found in a file that is ignored.
-/

namespace Checkup

namespace Folder

/-! ## Files that are taken out -/

/-- The folder without some of its files, one after the other. -/
def eraseAll (f : Folder) (gone : List Names) : Folder := gone.foldl erase f

/-- Whether the names are those of a source file below the directory that one of the globs matches. -/
def isIgnoredBelow (globs : List Glob) (dir names : Names) : Bool :=
  let below : Names := names.drop dir.length
  dir.isPrefixOf names && Path.isScript below.path && isFiltered globs below.path

/-- The names of the source files below the directory that the globs match. -/
def ignoredBelow (f : Folder) (globs : List Glob) (dir : Names) : List Names :=
  ((f.files.map StoredFile.names).filter (isIgnoredBelow globs dir)).dedup

/-- The folder without the source files below the root that the globs match. -/
def withoutIgnored (f : Folder) (globs : List Glob) (root : String) : Folder :=
  match f.resolve root with
  | none => f
  | some dir => f.eraseAll (f.ignoredBelow globs dir)

/-- The files are there, and each has a name that only a source file has. -/
structure Removable (f : Folder) (gone : List Names) : Prop where
  nodup : gone.Nodup
  present : ∀ names ∈ gone, (f.file? names).isSome
  script : ∀ names ∈ gone, ∃ name, names.getLast? = some name ∧
    ∀ other, isPlain other = true → Path.isScript other = false → other ≠ name

variable {f : Folder} {gone : List Names} {globs : List Glob} {dir names : Names}

theorem eraseAll_files (f : Folder) (gone : List Names) :
    (f.eraseAll gone).files = f.files.filter fun s => s.names ∉ gone := by
  induction gone generalizing f with
  | nil => simp [eraseAll]
  | cons names gone ih =>
    rw [eraseAll, List.foldl_cons, ← eraseAll, ih, erase, List.filter_filter]
    refine List.filter_congr fun s _ => ?_
    by_cases hs : s.names = names <;> simp [hs]

theorem file?_eraseAll (f : Folder) (gone : List Names) (ns : Names) :
    (f.eraseAll gone).file? ns = if ns ∈ gone then none else f.file? ns := by
  induction gone generalizing f with
  | nil => rfl
  | cons names gone ih =>
    rw [eraseAll, List.foldl_cons, ← eraseAll, ih, file?_erase]
    by_cases hns : ns = names <;> simp [hns]

/-- What is the same without one of the files is the same without all of them. -/
theorem eraseAll_eq {α : Type} (look : Folder → α)
    (hlook : ∀ {f g name}, AgreeBut name f g →
      (∀ other, isPlain other = true → Path.isScript other = false → other ≠ name) → look f = look g)
    (h : f.Removable gone) : look (f.eraseAll gone) = look f := by
  induction gone generalizing f with
  | nil => rfl
  | cons names gone ih =>
    obtain ⟨hnames, hnodup⟩ := List.nodup_cons.mp h.nodup
    obtain ⟨name, hlast, hname⟩ := h.script names (List.mem_cons_self ..)
    have hrest : (f.erase names).Removable gone := by
      refine ⟨hnodup, fun ns hns => ?_, fun ns hns => h.script ns (List.mem_cons_of_mem _ hns)⟩
      have hne : ns ≠ names := fun e => hnames (e ▸ hns)
      rw [file?_erase, if_neg hne]
      exact h.present ns (List.mem_cons_of_mem _ hns)
    rw [eraseAll, List.foldl_cons, ← eraseAll, ih hrest]
    exact (hlook (agreeBut_erase (h.present names (List.mem_cons_self ..)) hlast) hname).symm

section Removable

variable (h : f.Removable gone)

include h

theorem Removable.isDir (ns : Names) : (f.eraseAll gone).isDir ns = f.isDir ns :=
  eraseAll_eq (fun f => f.isDir ns) (fun hagree _ => hagree.isDir ns) h

theorem Removable.resolve (path : String) : (f.eraseAll gone).resolve path = f.resolve path :=
  eraseAll_eq (fun f => f.resolve path) (fun hagree _ => hagree.resolve path) h

theorem Removable.isDirAt (path : String) : (f.eraseAll gone).isDirAt path = f.isDirAt path :=
  eraseAll_eq (fun f => f.isDirAt path) (fun hagree _ => hagree.isDirAt path) h

/-- Files of other kinds are there as before. -/
theorem Removable.fileAt? (root : String) {other : String} (hplain : isPlain other = true)
    (hscript : Path.isScript other = false) :
    (f.eraseAll gone).fileAt? (joinPath root other) = f.fileAt? (joinPath root other) :=
  eraseAll_eq (fun f => f.fileAt? (joinPath root other))
    (fun hagree hname => hagree.fileAt? root hplain (hname other hplain hscript)) h

theorem Removable.load {α : Type} (root : String) {other : String} (hplain : isPlain other = true)
    (hscript : Path.isScript other = false) (parse : Text → Option α) :
    (f.eraseAll gone).load (joinPath root other) parse = f.load (joinPath root other) parse := by
  rw [Folder.load, Folder.load, h.fileAt? root hplain hscript]

/-- No ignore rules are taken out, so a walk comes to the same entries. -/
theorem Removable.source? (exclude : List Glob) (dir : Names) (s : StoredFile) :
    (f.eraseAll gone).source? exclude dir s = f.source? exclude dir s := by
  refine eraseAll_eq (fun f => f.source? exclude dir s) (fun hagree hname => hagree.source? ?_ exclude dir s) h
  have hfiles : ∀ file ∈ ignoreFiles, ∃ other, file.getLast? = some other ∧ isPlain other = true ∧
      Path.isScript other = false := by
    simp only [ignoreFiles, List.forall_mem_cons]
    exact ⟨⟨_, rfl, by decide, by decide⟩, ⟨_, rfl, by decide, by decide⟩, ⟨_, rfl, by decide, by decide⟩, by simp⟩
  intro file hfile hlast
  obtain ⟨other, hother, hplain, hscript⟩ := hfiles file hfile
  exact hname other hplain hscript (Option.some.inj (hother.symm.trans hlast))

end Removable

theorem mem_ignoredBelow :
    names ∈ f.ignoredBelow globs dir ↔
      names ∈ f.files.map StoredFile.names ∧ isIgnoredBelow globs dir names = true := by
  rw [ignoredBelow, List.mem_dedup, List.mem_filter]

theorem isIgnoredBelow_iff :
    isIgnoredBelow globs dir names = true ↔
      ∃ below, names = dir ++ below ∧ Path.isScript below.path = true ∧ isFiltered globs below.path = true := by
  simp only [isIgnoredBelow, Bool.and_eq_true, List.isPrefixOf_iff_prefix]
  constructor
  · rintro ⟨⟨⟨below, rfl⟩, hscript⟩, hfiltered⟩
    rw [List.drop_left] at hscript hfiltered
    exact ⟨below, rfl, hscript, hfiltered⟩
  · rintro ⟨below, rfl, hscript, hfiltered⟩
    rw [List.drop_left]
    exact ⟨⟨List.prefix_append _ _, hscript⟩, hfiltered⟩

/-- The source files that globs match can be taken out. -/
theorem removable_ignoredBelow (f : Folder) (globs : List Glob) (dir : Names) :
    f.Removable (f.ignoredBelow globs dir) where
  nodup := List.nodup_dedup _
  present names hnames := by
    obtain ⟨s, hs, rfl⟩ := List.mem_map.mp (mem_ignoredBelow.mp hnames).1
    rw [file?, Option.isSome_map, List.find?_isSome]
    exact ⟨s, hs, beq_self_eq_true _⟩
  script names hnames := by
    obtain ⟨below, rfl, hscript, _⟩ := isIgnoredBelow_iff.mp (mem_ignoredBelow.mp hnames).2
    rcases List.eq_nil_or_concat below with rfl | ⟨before, name, rfl⟩
    · exact absurd hscript (by decide)
    · refine ⟨name, by simp, fun other hplain hother e => ?_⟩
      rw [List.concat_eq_append, ← e, isScript_path before hplain, hother] at hscript
      cases hscript

theorem isIgnoredBelow_of_below? {s : StoredFile} {below : Names} (h : below? dir s = some below) :
    isIgnoredBelow globs dir s.names = (Path.isScript below.path && isFiltered globs below.path) := by
  unfold below? at h
  split at h
  · rename_i hdir
    cases h
    obtain ⟨hleads, _⟩ := Bool.and_eq_true _ _ ▸ hdir
    rw [isIgnoredBelow, hleads, Bool.true_and]
  · cases h

/-- A walk that ignores files passes over these files, and over no others. -/
theorem source?_ignoring (f : Folder) (globs : List Glob) (dir : Names) (s : StoredFile) :
    f.source? globs dir s = if isIgnoredBelow globs dir s.names then none else f.source? [] dir s := by
  unfold source?
  cases hbelow : below? dir s with
  | none => rw [ite_self]
  | some below =>
    have hnone : isFiltered [] below.path = false := rfl
    rw [isIgnoredBelow_of_below? hbelow]
    dsimp only
    cases Path.isScript below.path <;> cases isFiltered globs below.path <;> simp [hnone]

/-- A walk finds the same without the files as when it ignores them. -/
theorem collectSources_withoutIgnored (f : Folder) (globs : List Glob) (root : String) :
    collectSources (f.withoutIgnored globs root) root [] = collectSources f root globs := by
  cases hroot : f.resolve root with
  | none => simp [collectSources, withoutIgnored, hroot]
  | some dir =>
    have h := f.removable_ignoredBelow globs dir
    have hfiles : (f.eraseAll (f.ignoredBelow globs dir)).files.filterMap
        ((f.eraseAll (f.ignoredBelow globs dir)).source? [] dir) = f.files.filterMap (f.source? globs dir) := by
      rw [eraseAll_files, List.filterMap_filter]
      refine List.filterMap_congr fun s hs => ?_
      have hmem : s.names ∈ f.ignoredBelow globs dir ↔ isIgnoredBelow globs dir s.names = true := by
        rw [mem_ignoredBelow, and_iff_right (List.mem_map.mpr ⟨s, hs, rfl⟩)]
      rw [f.source?_ignoring globs dir s]
      by_cases hignored : isIgnoredBelow globs dir s.names = true
      · simp [hmem, hignored]
      · simp [hmem, hignored, h.source?]
    simp only [collectSources, withoutIgnored, hroot, h.resolve, h.isDir, hfiles]

/-- A file of the root that is not ignored is there as before. -/
theorem fileAt?_withoutIgnored (f : Folder) {globs : List Glob} {root name : String} (hname : isPlain name = true)
    (hkept : (f.fileAt? (joinPath root name)).isSome → isFiltered globs name = false) :
    (f.withoutIgnored globs root).fileAt? (joinPath root name) = f.fileAt? (joinPath root name) := by
  unfold withoutIgnored
  cases hroot : f.resolve root with
  | none => rfl
  | some dir =>
    have h := f.removable_ignoredBelow globs dir
    have hpath : Names.path [name] = name := by simp [Names.path]
    simp only [fileAt?, h.resolve, f.resolve_joinPath hroot hname] at hkept ⊢
    split at hkept
    · rename_i hdir
      rw [if_pos hdir, Option.bind_some, Option.bind_some, file?_eraseAll, ite_eq_right_iff]
      intro hmem
      obtain ⟨below, hbelow, _, hfiltered⟩ := isIgnoredBelow_iff.mp (mem_ignoredBelow.mp hmem).2
      rw [← List.append_cancel_left hbelow, hpath] at hfiltered
      cases hfile : f.file? (dir ++ [name]) with
      | none => rfl
      | some bytes =>
        rw [hkept (by rw [Option.bind_some, hfile, Option.isSome_some])] at hfiltered
        cases hfiltered
    · rename_i hdir
      rw [if_neg hdir]
      rfl

theorem exists_withoutIgnored (f : Folder) (globs : List Glob) (root : String) :
    ∃ gone, f.Removable gone ∧ f.withoutIgnored globs root = f.eraseAll gone := by
  unfold withoutIgnored
  cases f.resolve root with
  | none => exact ⟨[], ⟨List.nodup_nil, by simp, by simp⟩, rfl⟩
  | some dir => exact ⟨_, f.removable_ignoredBelow globs dir, rfl⟩

end Folder

/-! ## Where findings of a scan point -/

variable {f : Folder} {root : String} {globs : List Glob} {files : List SourceFile} {finding : Finding}

/-- A file that is ignored is no source file. -/
theorem isFiltered_of_mem_collectSources (h : collectSources f root globs = .ok files) {file : SourceFile}
    (hfile : file ∈ files) : isFiltered globs file.path = false := by
  unfold collectSources at h
  split at h
  · cases h
  split at h
  · cases h
  cases h
  obtain ⟨s, _, hsource⟩ := List.mem_filterMap.mp (mem_sortByPath.mp hfile)
  unfold Folder.source? at hsource
  split at hsource
  · cases hsource
  split at hsource
  · rename_i hif
    cases hsource
    exact Bool.not_eq_true' _ ▸ (Bool.and_eq_true _ _ ▸ hif).2
  · cases hsource

/-- Rules of the catalog find things in the files that are swept. -/
theorem Sweep.path_of_mem {tables : RuleTables} {disabled : List String}
    (h : finding ∈ (Sweep.ofFiles (withoutRules (builtinRules tables) disabled) files).findings) :
    ∃ file ∈ files, finding.location.path = file.path := by
  simp only [ofFiles, List.mem_flatMap, List.mem_map] at h
  obtain ⟨_, ⟨file, hfile, rfl⟩, hfinding⟩ := h
  refine ⟨file, mem_sortByPath.mp hfile, ?_⟩
  unfold ofFile at hfinding
  split at hfinding
  · cases hfinding
  · simp only [keepUnsuppressed_eq_filter] at hfinding
    obtain ⟨⟨id, outcome⟩, houtcome, hmem⟩ := List.mem_flatMap.mp (List.mem_filter.mp hfinding).1
    obtain ⟨r, hr, heq⟩ := List.mem_map.mp houtcome
    obtain ⟨rfl, rfl⟩ := Prod.mk.inj heq
    obtain ⟨spots, hspots⟩ := builtinRules_reportsSpots tables r (List.mem_filter.mp hr).1
    unfold findingsOf at hmem
    split at hmem
    · rename_i hok
      exact (hspots.bears (Prod.mk.inj hok).2 hmem).path
    · cases hmem

theorem path_of_mem_statsFindings {manifest : Option Manifest} {c : Option TsConfig} {limit limit' : Nat}
    (h : finding ∈ statsFindings (.ofProject files manifest c limit) limit') :
    (∃ file ∈ files, finding.location.path = file.path) ∨ finding.location.path = "" := by
  rcases List.mem_append.mp h with h | h
  · simp only [ProjectStats.ofProject, List.map_map, List.mem_map] at h
    obtain ⟨file, hfile, rfl⟩ := h
    exact Or.inl ⟨file, (List.mem_filter.mp hfile).1, rfl⟩
  · split at h
    · split at h
      · exact Or.inr (by rw [List.mem_singleton.mp h]; rfl)
      · cases h
    · cases h

theorem mem_findingIf {condition : Bool} {g : Finding} :
    finding ∈ findingIf condition g ↔ condition = true ∧ finding = g := by
  cases condition <;> simp [findingIf]

/-- The finding is one about the configuration of Next.js in a file of the root. -/
structure AboutNextConfig (f : Folder) (root : String) (finding : Finding) : Prop where
  name : finding.location.path ∈ nextConfigNames
  present : (f.fileAt? (joinPath root finding.location.path)).isSome
  ruleId : finding.ruleId ∈ [reactStrictModeOff.id, unoptimizedImages.id]

theorem about_of_mem_configFindings {c : Option TsConfig} (h : finding ∈ configFindings f root c) :
    finding.location.path = TsConfig.fileName ∨ AboutNextConfig f root finding := by
  rcases List.mem_append.mp h with h | h
  · cases c with
    | none => cases h
    | some c =>
      simp only [Option.map_some, Option.getD_some, tsConfigFindings, List.mem_append, mem_findingIf] at h
      rcases h with (⟨_, rfl⟩ | ⟨_, rfl⟩) | ⟨_, rfl⟩ <;> exact Or.inl rfl
  · obtain ⟨name, hname, h⟩ := List.mem_flatMap.mp h
    split at h
    · rename_i content hcontent
      have hpresent : (f.fileAt? (joinPath root name)).isSome := by
        obtain ⟨bytes, hbytes, _⟩ := Option.bind_eq_some_iff.mp hcontent
        rw [hbytes, Option.isSome_some]
      simp only [nextConfigFindings, List.mem_append, mem_findingIf] at h
      rcases h with ⟨_, rfl⟩ | ⟨_, rfl⟩
      · exact Or.inr ⟨hname, hpresent, List.mem_cons_self ..⟩
      · exact Or.inr ⟨hname, hpresent, List.mem_cons_of_mem _ (List.mem_cons_self ..)⟩
    · cases h

theorem ScanInputs.mem_findings {i : ScanInputs} (h : finding ∈ i.findings) :
    finding ∈ i.ruleFindings ++ i.lint.findings ++ i.configFindings ++ i.statsFindings :=
  (mem_dedup.mp ((sortBySeverity_perm _).mem_iff.mp h)).mem

/-! ## Scans -/

namespace ScanOptions

variable {o : ScanOptions} {patterns : List String}

/-- The options with other patterns of paths that are passed over. -/
def ignoring (o : ScanOptions) (patterns : List String) : ScanOptions :=
  { o with settings := { o.settings with ignoredPaths := patterns } }

/-- The findings about the settings of a project in a folder. -/
def ownConfigFindings (o : ScanOptions) (f : Folder) : List Finding :=
  configFindings f o.root (orDiagnose "tsconfig" FileFault.message none (o.tsConfig f)).1

/-- Both scans have the same source files, or the same fault. -/
theorem sources_ignoring (hglobs : filterGlobs patterns = .ok globs) (f : Folder) :
    (o.ignoring patterns).sources f = (o.ignoring []).sources (f.withoutIgnored globs o.root) := by
  have hnone : filterGlobs [] = .ok [] := rfl
  have hcollect := f.collectSources_withoutIgnored globs o.root
  simp only [sources, ignoring, hglobs, hnone, bind, Except.bind, hcollect]

/-- All parts of a scan but the check of the configuration find the same without the files. -/
theorem inputs_withoutIgnored (box : Toolbox) (f : Folder) (globs : List Glob) (files : List SourceFile) :
    o.inputs box f files = { o.inputs box (f.withoutIgnored globs o.root) files with
      configFindings := o.ownConfigFindings f } := by
  obtain ⟨gone, h, hgone⟩ := f.exists_withoutIgnored globs o.root
  have hmanifest : o.manifest (f.eraseAll gone) = o.manifest f := h.load o.root (by decide) (by decide) Manifest.parse
  have htsConfig : o.tsConfig (f.eraseAll gone) = o.tsConfig f := h.load o.root (by decide) (by decide) TsConfig.parse
  have hpresent : o.hasManifest (f.eraseAll gone) = o.hasManifest f :=
    congrArg Option.isSome (h.fileAt? o.root (by decide) (by decide))
  have hinstalled : o.isInstalled (f.eraseAll gone) = o.isInstalled f := h.isDirAt _
  simp only [hgone, inputs, ownConfigFindings, audit, hmanifest, htsConfig, hpresent, hinstalled]

/-- The check of the configuration finds the same if no file that it looks at is taken out. -/
theorem ownConfigFindings_withoutIgnored
    (h : ∀ name ∈ nextConfigNames, (f.fileAt? (o.inRoot name)).isSome → isFiltered globs name = false) :
    o.ownConfigFindings (f.withoutIgnored globs o.root) = o.ownConfigFindings f := by
  obtain ⟨gone, hremovable, hgone⟩ := f.exists_withoutIgnored globs o.root
  have htsConfig : o.tsConfig (f.withoutIgnored globs o.root) = o.tsConfig f := by
    rw [hgone]
    exact hremovable.load o.root (by decide) (by decide) TsConfig.parse
  have hplain : ∀ name ∈ nextConfigNames, isPlain name = true := by decide
  rw [ownConfigFindings, ownConfigFindings, htsConfig]
  refine congrArg (_ ++ ·) (List.flatMap_congr fun name hname => ?_)
  rw [f.fileAt?_withoutIgnored (hplain name hname) (h name hname)]

/-- What can be found in a file that is ignored: only something about the configuration of Next.js. -/
theorem finding_ignored (hlinter : o.runLinter = false) (hglobs : filterGlobs o.settings.ignoredPaths = .ok globs)
    {box : Toolbox} {elapsedMs : Nat} {r : ScanResult} (hr : o.scan box f elapsedMs = .ok r)
    (hfinding : finding ∈ r.findings) (hscript : Path.isScript finding.location.path = true)
    (hfiltered : isFiltered globs finding.location.path = true) : AboutNextConfig f o.root finding := by
  cases hfiles : o.sources f with
  | error fault =>
    rw [scan_of_error hfiles] at hr
    cases hr
  | ok files =>
    rw [scan_of_ok hfiles] at hr
    cases hr
    have hcollect : collectSources f o.root globs = .ok files := by rwa [sources, hglobs] at hfiles
    have hother : ∀ file ∈ files, finding.location.path ≠ file.path := fun file hfile hpath => by
      rw [hpath, isFiltered_of_mem_collectSources hcollect hfile] at hfiltered
      cases hfiltered
    have hmem := ScanInputs.mem_findings hfinding
    simp only [inputs, lint, hlinter, List.mem_append] at hmem
    rcases hmem with ((hmem | hmem) | hmem) | hmem
    · obtain ⟨file, hfile, hpath⟩ := Sweep.path_of_mem hmem
      exact absurd hpath (hother file hfile)
    · cases hmem
    · rcases about_of_mem_configFindings hmem with hpath | habout
      · rw [hpath] at hscript
        exact absurd hscript (by decide)
      · exact habout
    · rcases path_of_mem_statsFindings hmem with ⟨file, hfile, hpath⟩ | hpath
      · exact absurd hpath (hother file hfile)
      · rw [hpath] at hscript
        exact absurd hscript (by decide)

/-- **Ignored files.** Let the linter be off. A scan that ignores the files that some patterns match is a scan without
patterns of the folder without the source files that they match, except that the configuration is looked at as it is in
the whole folder. So the scans have the same result, but for the time, if no configuration of Next.js in the root is
ignored; and a finding in an ignored source file is one about such a configuration. -/
theorem scan_ignoring (hlinter : o.runLinter = false) (hglobs : filterGlobs patterns = .ok globs) (box : Toolbox)
    (f : Folder) (elapsedMs elapsedMs' : Nat) :
    let ignoring := o.ignoring patterns
    let all := o.ignoring []
    let g := f.withoutIgnored globs o.root
    (ignoring.scan box f elapsedMs = (all.sources g).map fun files =>
      { all.inputs box g files with configFindings := o.ownConfigFindings f }.result elapsedMs) ∧
    ((∀ name ∈ nextConfigNames, (f.fileAt? (o.inRoot name)).isSome → isFiltered globs name = false) →
      ignoring.scan box f elapsedMs = (all.scan box g elapsedMs').map fun r => { r with elapsedMs := elapsedMs }) ∧
    ∀ r, ignoring.scan box f elapsedMs = .ok r → ∀ finding ∈ r.findings,
      Path.isScript finding.location.path = true → isFiltered globs finding.location.path = true →
      AboutNextConfig f o.root finding := by
  intro ignoring all g
  have hsources : ignoring.sources f = all.sources g := sources_ignoring hglobs f
  have hscan : ignoring.scan box f elapsedMs = (all.sources g).map fun files =>
      { all.inputs box g files with configFindings := o.ownConfigFindings f }.result elapsedMs := by
    cases hfiles : all.sources g with
    | error fault => rw [scan_of_error (hsources.trans hfiles), Except.map]
    | ok files =>
      rw [scan_of_ok (hsources.trans hfiles)]
      exact congrArg (Except.ok ∘ (ScanInputs.result · elapsedMs)) (all.inputs_withoutIgnored box f globs files)
  refine ⟨hscan, fun hkept => ?_, fun r hr finding hfinding => ?_⟩
  · rw [hscan, ← ownConfigFindings_withoutIgnored hkept]
    cases hfiles : all.sources g with
    | error fault => rw [scan_of_error hfiles, Except.map, Except.map]
    | ok files =>
      rw [scan_of_ok hfiles]
      rfl
  · exact finding_ignored (o := ignoring) hlinter hglobs hr hfinding

/-- Generated files are ignored, and the configuration of Next.js is not. -/
theorem scan_ignoring_generated :
    let o : ScanOptions := ⟨".", .standard, .standard, false, false⟩
    let f : Folder := ⟨[⟨["src", "gen", "api.ts"], "console.log(1)".toUTF8.data.toList⟩,
      ⟨["next.config.js"], "reactStrictMode: false".toUTF8.data.toList⟩], []⟩
    ∃ globs r, filterGlobs ["src/gen/"] = .ok globs ∧
      (f.withoutIgnored globs o.root).files.map StoredFile.names = [["next.config.js"]] ∧
      (o.ignoring []).scan .empty (f.withoutIgnored globs o.root) 5 = .ok r ∧
      (o.ignoring ["src/gen/"]).scan .empty f 3 = .ok { r with elapsedMs := 3 } ∧
      ∀ finding ∈ r.findings, finding.location.path ≠ "src/gen/api.ts" := by
  intro o f
  have hcheck : (filterGlobs ["src/gen/"]).toOption.map (fun globs =>
      ((f.withoutIgnored globs o.root).files.map StoredFile.names, isFiltered globs "src/gen/api.ts",
        nextConfigNames.any (isFiltered globs ·),
        ((o.ignoring []).scan .empty (f.withoutIgnored globs o.root) 5).isOk)) =
      some ([["next.config.js"]], true, false, true) := by decide +kernel
  cases hglobs : filterGlobs ["src/gen/"] with
  | error fault => simp [hglobs, Except.toOption] at hcheck
  | ok globs =>
    simp only [hglobs, Except.toOption, Option.map_some, Option.some.injEq, Prod.mk.injEq, List.any_eq_false,
      Bool.not_eq_true] at hcheck
    obtain ⟨hnames, hgen, hkept, hok⟩ := hcheck
    obtain ⟨_, hsame, hfinding⟩ := scan_ignoring (o := o) rfl hglobs .empty f 3 5
    have hsame := hsame fun name hname _ => hkept name hname
    cases hr : (o.ignoring []).scan .empty (f.withoutIgnored globs o.root) 5 with
    | error fault =>
      rw [hr] at hok
      cases hok
    | ok r =>
      rw [hr] at hsame
      refine ⟨globs, r, rfl, hnames, hr, hsame, fun finding hmem hpath => ?_⟩
      have habout := hfinding _ hsame finding hmem (by rw [hpath]; decide) (by rw [hpath, hgen])
      exact absurd (hpath ▸ habout.name) (by decide)

/-- The configuration of Next.js is looked at even if it is ignored: without the file there is nothing to find. -/
theorem scan_ignoring_nextConfig :
    let o : ScanOptions := ⟨".", .standard, .standard, false, false⟩
    let f : Folder :=
      ⟨[⟨["next.config.js"], "module.exports = \x7b reactStrictMode: false \x7d;\n".toUTF8.data.toList⟩], []⟩
    ∃ globs r r', filterGlobs ["next.config.js"] = .ok globs ∧ isFiltered globs "next.config.js" = true ∧
      (o.ignoring ["next.config.js"]).scan .empty f 0 = .ok r ∧
      (o.ignoring []).scan .empty (f.withoutIgnored globs o.root) 0 = .ok r' ∧ r ≠ r' ∧
      r.findings.map (fun finding => (finding.ruleId, finding.location.path)) =
        [("config-next-strict-mode", "next.config.js")] ∧
      r'.findings = [] := by
  intro o f
  have hfound : ((o.ignoring ["next.config.js"]).scan .empty f 0).toOption.map (fun r =>
      r.findings.map fun finding => (finding.ruleId, finding.location.path)) =
      some [("config-next-strict-mode", "next.config.js")] := by decide +kernel
  have hnone : (filterGlobs ["next.config.js"]).toOption.map (fun globs => (isFiltered globs "next.config.js",
      ((o.ignoring []).scan .empty (f.withoutIgnored globs o.root) 0).toOption.map fun r => r.findings.length)) =
      some (true, some 0) := by decide +kernel
  cases hglobs : filterGlobs ["next.config.js"] with
  | error fault => simp [hglobs, Except.toOption] at hnone
  | ok globs =>
    simp only [hglobs, Except.toOption, Option.map_some, Option.some.injEq, Prod.mk.injEq] at hnone
    obtain ⟨hignored, hnone⟩ := hnone
    cases hr : (o.ignoring ["next.config.js"]).scan .empty f 0 with
    | error fault => simp [hr, Except.toOption] at hfound
    | ok r =>
      cases hr' : (o.ignoring []).scan .empty (f.withoutIgnored globs o.root) 0 with
      | error fault => simp [hr'] at hnone
      | ok r' =>
        simp only [hr, Except.toOption, Option.map_some, Option.some.injEq] at hfound
        simp only [hr', Option.map_some, Option.some.injEq, List.length_eq_zero_iff] at hnone
        refine ⟨globs, r, r', rfl, hignored, rfl, hr', fun e => ?_, hfound, hnone⟩
        rw [e, hnone] at hfound
        cases hfound

end ScanOptions

end Checkup
