import Checkup.Proofs.Project.Removal
import Checkup.Scan

/-!
# Project files that cannot be read

A manifest or compiler options of which nothing can be made are as good as none, but for one diagnostic: a scan without
the tools finds what it finds when the file is taken out (`ScanOptions.scan_malformed`).

* `Folder.Malformed`: the file is there, and nothing can be made of it.
* `ScanOptions.inputs_of_manifest`, `ScanOptions.inputs_of_tsConfig`: what that does to the parts of a scan.
-/

namespace Checkup

/-! ## Files -/

/-- A written path leads to a file of which `parse` makes nothing: the bytes are no text, or the text is none of that
kind. -/
structure Folder.Malformed {α : Type} (f : Folder) (path : String) (parse : Text → Option α) (names : Names) :
    Prop where
  resolve : f.resolve path = some names
  bytes : ∃ bytes, f.file? names = some bytes ∧ (Utf8.text? bytes).bind parse = none

namespace Folder.Malformed

variable {α : Type} {f : Folder} {path dir name : String} {parse : Text → Option α} {names : Names}

theorem load (h : f.Malformed path parse names) : ∃ fault, f.load path parse = .error fault := by
  obtain ⟨bytes, hbytes, hparse⟩ := h.bytes
  have hfile : f.fileAt? path = some bytes := by rw [fileAt?, h.resolve, Option.bind_some, hbytes]
  rw [Folder.load, hfile]
  dsimp only
  split
  · exact ⟨_, rfl⟩
  · rename_i t ht
    rw [ht, Option.bind_some] at hparse
    rw [hparse]
    exact ⟨_, rfl⟩

/-- The folders agree on files of other names. -/
theorem agreeBut (h : f.Malformed (joinPath dir name) parse names) (hname : isPlain name = true) :
    AgreeBut name f (f.erase names) := by
  obtain ⟨bytes, hbytes, _⟩ := h.bytes
  exact agreeBut_erase (by rw [hbytes, Option.isSome_some]) (f.getLast?_resolve_joinPath hname h.resolve)

/-- The file that was taken out is not there. -/
theorem load_erase (h : f.Malformed (joinPath dir name) parse names) (hname : isPlain name = true) :
    (f.erase names).load (joinPath dir name) parse = .ok none := by
  have hnone : (f.erase names).fileAt? (joinPath dir name) = none := by
    rw [fileAt?, ← (h.agreeBut hname).resolve, h.resolve, Option.bind_some, file?_erase, if_pos rfl]
  rw [Folder.load, hnone]

end Folder.Malformed

/-! ## Sources of diagnostics -/

/-- At most one diagnostic is left, and it names its source. -/
theorem orDiagnose_diagnostics {ε α : Type} (source : String) (message : ε → String) (standIn : α) (e : Except ε α) :
    (orDiagnose source message standIn e).2.length ≤ 1 ∧
      ∀ d ∈ (orDiagnose source message standIn e).2, d.source = source := by
  cases e <;> simp [orDiagnose]

theorem Sweep.source_of_mem {rules : List Rule} {files : List SourceFile} {d : Diagnostic}
    (hd : d ∈ (Sweep.ofFiles rules files).diagnostics) : ∃ id, d.source = "rule:" ++ id := by
  simp only [ofFiles, List.mem_flatMap, List.mem_map] at hd
  obtain ⟨_, ⟨file, _, rfl⟩, hd⟩ := hd
  unfold ofFile at hd
  split at hd
  · cases hd
  · obtain ⟨⟨id, outcome⟩, _, hfault⟩ := List.mem_filterMap.mp hd
    cases outcome with
    | ok findings => cases hfault
    | error message => cases hfault; exact ⟨id, rfl⟩

theorem DependencyReport.source_of_mem {box : Toolbox} {isInstalled : Bool} {manifest : Option Manifest}
    {files : List SourceFile} {d : Diagnostic}
    (hd : d ∈ (DependencyReport.ofProject box isInstalled manifest files).diagnostics) : d.source = "dependencies" := by
  cases manifest with
  | none => cases hd
  | some m =>
    simp only [ofProject] at hd
    split at hd
    · unfold ofVersions at hd
      split at hd
      · cases hd
      · rw [List.mem_singleton.mp hd]
    · cases hd

/-- No part of a scan but the reading of the manifest speaks for the manifest. -/
theorem source_ne_manifest {box : Toolbox} {isInstalled : Bool} {manifest : Option Manifest} {rules : List Rule}
    {files : List SourceFile} {d : Diagnostic}
    (hd : d ∈ (Sweep.ofFiles rules files).diagnostics ++
      (DependencyReport.ofProject box isInstalled manifest files).diagnostics) : d.source ≠ "manifest" := by
  rcases List.mem_append.mp hd with hd | hd
  · obtain ⟨id, hid⟩ := Sweep.source_of_mem hd
    rw [hid]
    intro h
    have hhead : ("rule:" ++ id).toList.head? = "manifest".toList.head? := by rw [h]
    simp at hhead
  · rw [DependencyReport.source_of_mem hd]
    decide

/-! ## Parts of scans -/

namespace ScanOptions

variable {o : ScanOptions} {f g : Folder} {fault : FileFault}

/-- A manifest that is at fault is none, with a diagnostic in front. -/
theorem inputs_of_manifest (hlinter : o.runLinter = false) (haudit : o.runAudit = false)
    (hf : o.manifest f = .error fault) (hg : o.manifest g = .ok none) (htsConfig : o.tsConfig f = o.tsConfig g)
    (hconfig : ∀ c, configFindings f o.root c = configFindings g o.root c) (box box' : Toolbox)
    (files : List SourceFile) :
    o.inputs box f files = { o.inputs box' g files with
      diagnostics := ⟨"manifest", fault.message⟩ :: (o.inputs box' g files).diagnostics } := by
  simp [inputs, hf, hg, htsConfig, hconfig, lint, audit, hlinter, haudit, orDiagnose, DependencyReport.ofProject]

/-- Compiler options that are at fault are none, with a diagnostic behind that of the manifest. -/
theorem inputs_of_tsConfig (hlinter : o.runLinter = false) (haudit : o.runAudit = false)
    (hf : o.tsConfig f = .error fault) (hg : o.tsConfig g = .ok none) (hmanifest : o.manifest f = o.manifest g)
    (hinstalled : o.isInstalled f = o.isInstalled g)
    (hconfig : ∀ c, configFindings f o.root c = configFindings g o.root c) (box : Toolbox)
    (files : List SourceFile) :
    ∃ before after, (o.inputs box g files).diagnostics = before ++ after ∧ before.length ≤ 1 ∧
      (∀ d ∈ before, d.source = "manifest") ∧ (∀ d ∈ after, d.source ≠ "manifest") ∧
      o.inputs box f files = { o.inputs box g files with
        diagnostics := before ++ ⟨"tsconfig", fault.message⟩ :: after } := by
  obtain ⟨hlength, hbefore⟩ := orDiagnose_diagnostics "manifest" FileFault.message none (o.manifest g)
  let sweep := Sweep.ofFiles o.rules files
  let dependencies := DependencyReport.ofProject box (o.isInstalled g)
    (orDiagnose "manifest" FileFault.message none (o.manifest g)).1 files
  have hafter : ∀ d ∈ sweep.diagnostics ++ dependencies.diagnostics, d.source ≠ "manifest" :=
    fun d hd => source_ne_manifest hd
  refine ⟨_, _, ?_, hlength, hbefore, hafter, ?_⟩
  · simp [inputs, hg, lint, audit, hlinter, haudit, orDiagnose, sweep, dependencies]
  · simp [inputs, hf, hg, hmanifest, hinstalled, hconfig, lint, audit, hlinter, haudit, orDiagnose, sweep, dependencies]

/-- A name that matters only to who looks for it: a walk passes over the file, and it has neither ignore rules nor the
configuration of Next.js. -/
structure Unwalked (name : String) : Prop where
  plain : isPlain name = true
  script : Path.isScript name = false
  ignore : Folder.NoIgnoreFile name
  nextConfig : name ∉ nextConfigNames

theorem unwalked_manifest : Unwalked Manifest.fileName := ⟨by decide, by decide, by decide, by decide⟩

theorem unwalked_tsConfig : Unwalked TsConfig.fileName := ⟨by decide, by decide, by decide, by decide⟩

/-- Without the file, the same source files are found. -/
theorem sources_erase {α : Type} {parse : Text → Option α} {name : String} {names : Names} (hname : Unwalked name)
    (h : f.Malformed (o.inRoot name) parse names) : o.sources (f.erase names) = o.sources f := by
  obtain ⟨bytes, hbytes, _⟩ := h.bytes
  have hlast := f.getLast?_resolve_joinPath hname.plain h.resolve
  have hcollect := Folder.collectSources_erase (by rw [hbytes, Option.isSome_some]) hlast hname.plain hname.script
    hname.ignore o.root
  simp only [sources, hcollect]

theorem scan_of_ok {files : List SourceFile} (h : o.sources f = .ok files) (box : Toolbox) (elapsedMs : Nat) :
    o.scan box f elapsedMs = .ok ((o.inputs box f files).result elapsedMs) := by
  rw [scan, h]
  rfl

theorem scan_of_error {fault : ConfigFault} (h : o.sources f = .error fault) (box : Toolbox) (elapsedMs : Nat) :
    o.scan box f elapsedMs = .error fault := by
  rw [scan, h]
  rfl

/-! ## Scans -/

/-- Diagnostics and the time come out as they went in and do not count elsewhere. -/
theorem result_with (i : ScanInputs) (diagnostics : List Diagnostic) (elapsedMs elapsedMs' : Nat) :
    { i with diagnostics := diagnostics }.result elapsedMs =
      { i.result elapsedMs' with elapsedMs := elapsedMs, diagnostics := diagnostics } := rfl

variable {names : Names}

/-- A scan with a manifest of which nothing can be made, for `scan_malformed`. -/
theorem scan_of_malformed_manifest (hlinter : o.runLinter = false) (haudit : o.runAudit = false)
    (h : f.Malformed (o.inRoot Manifest.fileName) Manifest.parse names) (box : Toolbox) (elapsedMs elapsedMs' : Nat) :
    ∃ message, ∀ box', o.scan box f elapsedMs = (o.scan box' (f.erase names) elapsedMs').map fun r => { r with
      elapsedMs := elapsedMs
      diagnostics := ⟨"manifest", message⟩ :: r.diagnostics } := by
  obtain ⟨fault, hfault⟩ := h.load
  have hagree := h.agreeBut unwalked_manifest.plain
  have hsources := sources_erase unwalked_manifest h
  refine ⟨fault.message, fun box' => ?_⟩
  have hinputs := inputs_of_manifest hlinter haudit hfault (h.load_erase unwalked_manifest.plain)
    (hagree.load o.root unwalked_tsConfig.plain (by decide) TsConfig.parse)
    (hagree.configFindings unwalked_manifest.nextConfig o.root) box box'
  cases hfiles : o.sources f with
  | error fault => rw [scan_of_error hfiles, scan_of_error (hsources.trans hfiles), Except.map]
  | ok files =>
    rw [scan_of_ok hfiles, scan_of_ok (hsources.trans hfiles), hinputs files, result_with _ _ _ elapsedMs']
    rfl

/-- A scan with compiler options of which nothing can be made, for `scan_malformed`. -/
theorem scan_of_malformed_tsConfig (hlinter : o.runLinter = false) (haudit : o.runAudit = false)
    (h : f.Malformed (o.inRoot TsConfig.fileName) TsConfig.parse names) (box : Toolbox) (elapsedMs elapsedMs' : Nat) :
    ∃ message,
      (∀ fault, o.scan box (f.erase names) elapsedMs' = .error fault → o.scan box f elapsedMs = .error fault) ∧
      (∀ r, o.scan box (f.erase names) elapsedMs' = .ok r →
        ∃ before after, r.diagnostics = before ++ after ∧ before.length ≤ 1 ∧
          (∀ d ∈ before, d.source = "manifest") ∧ (∀ d ∈ after, d.source ≠ "manifest") ∧
          o.scan box f elapsedMs = .ok { r with
            elapsedMs := elapsedMs
            diagnostics := before ++ ⟨"tsconfig", message⟩ :: after }) := by
  obtain ⟨fault, hfault⟩ := h.load
  have hagree := h.agreeBut unwalked_tsConfig.plain
  have hsources := sources_erase unwalked_tsConfig h
  have hinputs := inputs_of_tsConfig hlinter haudit hfault (h.load_erase unwalked_tsConfig.plain)
    (hagree.load o.root unwalked_manifest.plain (by decide) Manifest.parse) (hagree.isDirAt _)
    (hagree.configFindings unwalked_tsConfig.nextConfig o.root) box
  refine ⟨fault.message, ?_⟩
  cases hfiles : o.sources f with
  | error fault =>
    rw [scan_of_error hfiles, scan_of_error (hsources.trans hfiles)]
    exact ⟨fun _ herror => herror, fun _ hr => by cases hr⟩
  | ok files =>
    rw [scan_of_ok hfiles, scan_of_ok (hsources.trans hfiles)]
    refine ⟨fun _ herror => (by cases herror), fun r hr => ?_⟩
    obtain rfl := Except.ok.inj hr
    obtain ⟨before, after, hdiagnostics, hlength, hbefore, hafter, heq⟩ := hinputs files
    refine ⟨before, after, hdiagnostics, hlength, hbefore, hafter, ?_⟩
    rw [heq, result_with _ _ _ elapsedMs']

/-- **A project file that cannot be read is as good as none.** Without the tools, a scan of a project with such a
manifest is that of the project without the manifest, with one more diagnostic in front. With such compiler options, it
is that of the project without them, with one more diagnostic behind that of the manifest and before all others. -/
theorem scan_malformed (hlinter : o.runLinter = false) (haudit : o.runAudit = false) (box : Toolbox) (f : Folder)
    (elapsedMs elapsedMs' : Nat) :
    (∀ names, f.Malformed (o.inRoot Manifest.fileName) Manifest.parse names → ∃ message, ∀ box',
      o.scan box f elapsedMs = (o.scan box' (f.erase names) elapsedMs').map fun r => { r with
        elapsedMs := elapsedMs
        diagnostics := ⟨"manifest", message⟩ :: r.diagnostics }) ∧
    (∀ names, f.Malformed (o.inRoot TsConfig.fileName) TsConfig.parse names → ∃ message,
      (∀ fault, o.scan box (f.erase names) elapsedMs' = .error fault → o.scan box f elapsedMs = .error fault) ∧
      (∀ r, o.scan box (f.erase names) elapsedMs' = .ok r →
        ∃ before after, r.diagnostics = before ++ after ∧ before.length ≤ 1 ∧
          (∀ d ∈ before, d.source = "manifest") ∧ (∀ d ∈ after, d.source ≠ "manifest") ∧
          o.scan box f elapsedMs = .ok { r with
            elapsedMs := elapsedMs
            diagnostics := before ++ ⟨"tsconfig", message⟩ :: after })) := by
  constructor
  · intro names h
    exact scan_of_malformed_manifest hlinter haudit h box elapsedMs elapsedMs'
  · intro names h
    exact scan_of_malformed_tsConfig hlinter haudit h box elapsedMs elapsedMs'

/-- Both files are cut off. -/
theorem scan_malformed_pair :
    let o : ScanOptions := ⟨"./", .standard, .standard, false, false⟩
    let f : Folder := ⟨[⟨["package.json"], [0x7b]⟩, ⟨["tsconfig.json"], [0x5b, 0x7d]⟩], []⟩
    (∃ message, ∀ box', o.scan .empty f 3 = (o.scan box' (f.erase ["package.json"]) 5).map fun r => { r with
        elapsedMs := 3
        diagnostics := ⟨"manifest", message⟩ :: r.diagnostics }) ∧
    ∃ message before after r, o.scan .empty (f.erase ["tsconfig.json"]) 5 = .ok r ∧ r.diagnostics = before ++ after ∧
      o.scan .empty f 3 = .ok { r with elapsedMs := 3, diagnostics := before ++ ⟨"tsconfig", message⟩ :: after } := by
  intro o f
  have hmanifest : f.Malformed (o.inRoot Manifest.fileName) Manifest.parse ["package.json"] :=
    ⟨by decide, _, rfl, by decide +kernel⟩
  have htsConfig : f.Malformed (o.inRoot TsConfig.fileName) TsConfig.parse ["tsconfig.json"] :=
    ⟨by decide, _, rfl, by decide +kernel⟩
  obtain ⟨hfirst, hsecond⟩ := scan_malformed (o := o) rfl rfl .empty f 3 5
  obtain ⟨message, _, hscan⟩ := hsecond _ htsConfig
  have hok : (o.scan .empty (f.erase ["tsconfig.json"]) 5).isOk = true := by decide
  cases hr : o.scan .empty (f.erase ["tsconfig.json"]) 5 with
  | error fault =>
    rw [hr] at hok
    cases hok
  | ok r =>
    obtain ⟨before, after, hdiagnostics, _, _, _, heq⟩ := hscan r hr
    exact ⟨hfirst _ hmanifest, message, before, after, r, rfl, hdiagnostics, heq⟩

end ScanOptions

end Checkup
