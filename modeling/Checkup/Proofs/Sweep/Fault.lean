import Mathlib.Data.List.Nodup
import Checkup.Proofs.LineBreak.Sweep
import Checkup.Proofs.Sweep.Disabled
import Checkup.Proofs.Text.ByteOrder

/-!
# Sweeps file by file and rule by rule

A sweep of files with different paths is made of the sweeps of each file alone, in the order of the bytes of their
paths, and the sweep of a file is made of those with each rule alone, but that a silenced file has none of them. So the
order in which the files are given does not matter, and a rule that fails on a file leaves all else as it was.

* `Sweep.concat`: sweeps one after the other.
* `sortByPath_eq_of_perm`, `sortByPath_bytewise`: the order of the files.
* `Sweep.ofFile_append`: more rules add to the sweep of a file.
* `Sweep.ofFiles_local`: what becomes of a sweep if the files come in another order, or if a rule fails.
-/

namespace Checkup

/-! ## The order of the files -/

variable {files files' : List SourceFile}

theorem sortByPath_perm (files : List SourceFile) : (sortByPath files).Perm files := List.mergeSort_perm _ _

theorem sortByPath_sorted (files : List SourceFile) : (sortByPath files).Pairwise fun f g => f.path ≤ g.path := by
  have h := @List.pairwise_mergeSort SourceFile (fun f g => decide (f.path ≤ g.path))
    (fun f g h hfg hgh => decide_eq_true (String.le_trans (of_decide_eq_true hfg) (of_decide_eq_true hgh)))
    (fun f g => by simpa using String.le_total f.path g.path) files
  exact h.imp fun h => of_decide_eq_true h

/-- Files with different paths are told apart by them. -/
theorem eq_of_path_eq (hpaths : (files.map SourceFile.path).Nodup) {f g : SourceFile} (hf : f ∈ files)
    (hg : g ∈ files) (h : f.path = g.path) : f = g := List.inj_on_of_nodup_map hpaths hf hg h

/-- Files with different paths have one order. -/
theorem sortByPath_eq_of_perm (hpaths : (files.map SourceFile.path).Nodup) (hperm : files'.Perm files) :
    sortByPath files' = sortByPath files := by
  have hsort : (sortByPath files').Perm (sortByPath files) :=
    (sortByPath_perm files').trans (hperm.trans (sortByPath_perm files).symm)
  refine hsort.eq_of_pairwise (fun f g hf hg hfg hgf => ?_) (sortByPath_sorted files') (sortByPath_sorted files)
  have hmem : f ∈ files := hperm.subset (mem_sortByPath.mp hf)
  exact eq_of_path_eq hpaths hmem (mem_sortByPath.mp hg) (String.le_antisymm hfg hgf)

theorem sortByPath_paths_nodup (hpaths : (files.map SourceFile.path).Nodup) :
    ((sortByPath files).map SourceFile.path).Nodup := ((sortByPath_perm files).map _).nodup_iff.mpr hpaths

/-- It is the order of the bytes of the paths. -/
theorem sortByPath_bytewise (hpaths : (files.map SourceFile.path).Nodup) :
    (sortByPath files).Pairwise fun f g => f.path.toByteArray.data.toList < g.path.toByteArray.data.toList := by
  have hne : (sortByPath files).Pairwise fun f g => f.path ≠ g.path :=
    List.pairwise_map.mp (sortByPath_paths_nodup hpaths)
  refine ((sortByPath_sorted files).and hne).imp fun h => Text.bytes_lt_iff.mpr ?_
  exact Std.lt_of_le_of_ne h.1 h.2

/-- `r'` is the rule `r`, but for the file: there it fails. -/
structure Rule.FailsOn (r r' : Rule) (file : SourceFile) (message : String) : Prop where
  info : r'.info = r.info
  elsewhere : ∀ path content, path ≠ file.path → r'.detect path content = r.detect path content
  here : r'.detect file.path file.content = .error message

namespace Sweep

/-! ## One file -/

instance : Append Sweep := ⟨fun s t => ⟨s.findings ++ t.findings, s.diagnostics ++ t.diagnostics⟩⟩

theorem append_eq (s t : Sweep) : s ++ t = ⟨s.findings ++ t.findings, s.diagnostics ++ t.diagnostics⟩ := rfl

theorem append_assoc (s t u : Sweep) : s ++ t ++ u = s ++ (t ++ u) := by
  simp only [append_eq, List.append_assoc]

variable {rules : List Rule} {file : SourceFile}

theorem keepUnsuppressed_append (content : Text) (fs gs : List Finding) :
    keepUnsuppressed content (fs ++ gs) = keepUnsuppressed content fs ++ keepUnsuppressed content gs := by
  simp only [keepUnsuppressed_eq_filter, List.filter_append]

/-- More rules add to the sweep of a file, and change nothing in what the others find there. -/
theorem ofFile_append (rules rules' : List Rule) (file : SourceFile) :
    ofFile (rules ++ rules') file = ofFile rules file ++ ofFile rules' file := by
  unfold ofFile
  split
  · rfl
  · simp only [append_eq, List.map_append, List.flatMap_append, List.filterMap_append, keepUnsuppressed_append]

/-- One rule in a list of rules. -/
theorem ofFile_append_cons (before : List Rule) (r : Rule) (after : List Rule) (file : SourceFile) :
    ofFile (before ++ r :: after) file = ofFile before file ++ ofFile [r] file ++ ofFile after file := by
  rw [ofFile_append, ← List.singleton_append, ofFile_append, append_assoc]

variable {r r' : Rule} {fs : List Finding} {message : String}

theorem ofFile_of_ok (hlive : isFileSuppressed file.content = false) (h : r.detect file.path file.content = .ok fs) :
    ofFile [r] file = ⟨keepUnsuppressed file.content fs, []⟩ := by
  simp [ofFile, hlive, h, findingsOf, fault?]

theorem ofFile_of_error (hlive : isFileSuppressed file.content = false)
    (h : r.detect file.path file.content = .error message) :
    ofFile [r] file = ⟨[], [⟨s!"rule:{r.info.id}", s!"{file.path}: {message}"⟩]⟩ := by
  simp [ofFile, hlive, h, findingsOf, fault?, keepUnsuppressed]

/-- Rules of one name that say the same of a file may stand for each other. -/
theorem ofFile_congr (hinfo : r'.info = r.info)
    (h : r'.detect file.path file.content = r.detect file.path file.content) : ofFile [r'] file = ofFile [r] file := by
  simp only [ofFile, List.map_cons, List.map_nil, hinfo, h]

/-! ## Several files -/

/-- Sweeps one after the other. -/
def concat (sweeps : List Sweep) : Sweep := ⟨sweeps.flatMap Sweep.findings, sweeps.flatMap Sweep.diagnostics⟩

theorem concat_append_cons (before : List Sweep) (s : Sweep) (after : List Sweep) :
    concat (before ++ s :: after) = concat before ++ s ++ concat after := by
  simp [concat, append_eq]

theorem ofFiles_eq (rules : List Rule) (files : List SourceFile) :
    ofFiles rules files = concat ((sortByPath files).map (ofFile rules)) := rfl

theorem ofFiles_singleton (rules : List Rule) (file : SourceFile) : ofFiles rules [file] = ofFile rules file := by
  simp [ofFiles_eq, sortByPath, concat]

/-- Files with other paths are swept as before. -/
theorem ofFile_failsOn (h : r.FailsOn r' file message) {g : SourceFile} (hg : g.path ≠ file.path)
    (before after : List Rule) : ofFile (before ++ r' :: after) g = ofFile (before ++ r :: after) g := by
  rw [ofFile_append_cons, ofFile_append_cons, ofFile_congr h.info (h.elsewhere g.path g.content hg)]

/-- A file among others with different paths: those before it and those behind it in the order of the paths. -/
theorem exists_sortByPath_eq (hpaths : (files.map SourceFile.path).Nodup) (hfile : file ∈ files) :
    ∃ earlier later, sortByPath files = earlier ++ file :: later ∧
      (∀ g ∈ earlier, g.path ≠ file.path) ∧ ∀ g ∈ later, g.path ≠ file.path := by
  obtain ⟨earlier, later, hsort⟩ := List.append_of_mem (mem_sortByPath.mpr hfile)
  have hnodup := sortByPath_paths_nodup hpaths
  rw [hsort, List.map_append, List.map_cons, List.nodup_middle, List.nodup_cons] at hnodup
  refine ⟨earlier, later, hsort, fun g hg e => hnodup.1 ?_, fun g hg e => hnodup.1 ?_⟩
  · exact List.mem_append_left _ (List.mem_map.mpr ⟨g, hg, e⟩)
  · exact List.mem_append_right _ (List.mem_map.mpr ⟨g, hg, e⟩)

/-- A rule that fails on a file loses what it found there and leaves a diagnostic in its place. -/
theorem ofFiles_failsOn (hpaths : (files.map SourceFile.path).Nodup) (hfile : file ∈ files)
    (hlive : isFileSuppressed file.content = false) (hok : r.detect file.path file.content = .ok fs)
    (h : r.FailsOn r' file message) (before after : List Rule) :
    ∃ earlier later : Sweep,
      ofFiles (before ++ r :: after) files = earlier ++ ⟨keepUnsuppressed file.content fs, []⟩ ++ later ∧
      ofFiles (before ++ r' :: after) files =
        earlier ++ ⟨[], [⟨s!"rule:{r.info.id}", s!"{file.path}: {message}"⟩]⟩ ++ later := by
  obtain ⟨earlier, later, hsort, hearlier, hlater⟩ := exists_sortByPath_eq hpaths hfile
  have hsame : ∀ gs : List SourceFile, (∀ g ∈ gs, g.path ≠ file.path) →
      gs.map (ofFile (before ++ r' :: after)) = gs.map (ofFile (before ++ r :: after)) :=
    fun gs hgs => List.map_congr_left fun g hg => ofFile_failsOn h (hgs g hg) before after
  refine ⟨concat (earlier.map (ofFile (before ++ r :: after))) ++ ofFile before file,
    ofFile after file ++ concat (later.map (ofFile (before ++ r :: after))), ?_, ?_⟩
  · rw [ofFiles_eq, hsort, List.map_append, List.map_cons, concat_append_cons, ofFile_append_cons,
      ofFile_of_ok hlive hok]
    simp only [append_assoc]
  · rw [ofFiles_eq, hsort, List.map_append, List.map_cons, concat_append_cons, ofFile_append_cons,
      ofFile_of_error hlive h.here, hsame earlier hearlier, hsame later hlater, h.info]
    simp only [append_assoc]

/-- **Files and rules one by one.** For rules of any kind and files with different paths, the order in which the files
are given does not matter; a sweep is made of the sweeps of each file alone, in the order of the bytes of the paths;
and if one rule comes to fail on one file that is not silenced, the sweep loses what is left there of the findings of
that rule, gets one diagnostic in their place, and is the same before and behind. -/
theorem ofFiles_local (rules : List Rule) (files : List SourceFile) (hpaths : (files.map SourceFile.path).Nodup) :
    (∀ files' : List SourceFile, files'.Perm files → ofFiles rules files' = ofFiles rules files) ∧
    (∃ sorted : List SourceFile, sorted.Perm files ∧
      sorted.Pairwise (fun f g => f.path.toByteArray.data.toList < g.path.toByteArray.data.toList) ∧
      ofFiles rules files = concat (sorted.map fun f => ofFiles rules [f])) ∧
    ∀ (before after : List Rule) (r r' : Rule) (file : SourceFile) (fs : List Finding) (message : String),
      rules = before ++ r :: after → file ∈ files → isFileSuppressed file.content = false →
      r.detect file.path file.content = .ok fs → r.FailsOn r' file message →
      ∃ earlier later : Sweep,
        ofFiles rules files = earlier ++ ⟨keepUnsuppressed file.content fs, []⟩ ++ later ∧
        ofFiles (before ++ r' :: after) files =
          earlier ++ ⟨[], [⟨s!"rule:{r.info.id}", s!"{file.path}: {message}"⟩]⟩ ++ later := by
  refine ⟨fun files' hperm => ?_, ⟨sortByPath files, sortByPath_perm files, sortByPath_bytewise hpaths, ?_⟩, ?_⟩
  · rw [ofFiles_eq, ofFiles_eq, sortByPath_eq_of_perm hpaths hperm]
  · simp only [ofFiles_singleton]
    rfl
  · rintro before after r r' file fs message rfl hfile hlive hok h
    exact ofFiles_failsOn hpaths hfile hlive hok h before after

/-- Two files, of which one has a comment that silences its second line, and a rule that comes to fail there. -/
theorem ofFiles_local_pair :
    let info : RuleInfo := ⟨"open-work", "Open work", .low, .info, "Marks of open work.", "https://react.dev"⟩
    let rule := info.rule [] fun _ _ => [⟨1, 1, "Line one", "Do it."⟩, ⟨2, 1, "Line two", "Do it."⟩]
    let broken : Rule := ⟨info, [], fun path content =>
      if path = "b.ts" then .error "out of memory" else rule.detect path content⟩
    let a : SourceFile := ⟨"a.ts", "let a\n".toList⟩
    let b : SourceFile := ⟨"b.ts", "let b\nlet c // react-health-ignore\n".toList⟩
    ([b, a].map SourceFile.path).Nodup ∧ isFileSuppressed b.content = false ∧ rule.FailsOn broken b "out of memory" ∧
      ofFiles [rule, rule] [a, b] = ofFiles [rule, rule] [b, a] ∧
      ∃ earlier later : Sweep,
        ofFiles [rule, rule] [b, a] = earlier ++ ⟨[info.finding "b.ts" ⟨1, 1, "Line one", "Do it."⟩], []⟩ ++ later ∧
        ofFiles [rule, broken] [b, a] = earlier ++ ⟨[], [⟨"rule:open-work", "b.ts: out of memory"⟩]⟩ ++ later := by
  intro info rule broken a b
  have hpaths : ([b, a].map SourceFile.path).Nodup := by decide
  have hlive : isFileSuppressed b.content = false := by decide
  have hfails : rule.FailsOn broken b "out of memory" := ⟨rfl, fun _ _ h => if_neg h, rfl⟩
  have hlocal := ofFiles_local [rule, rule] [b, a] hpaths
  refine ⟨hpaths, hlive, hfails, hlocal.1 [a, b] (.swap ..), ?_⟩
  exact hlocal.2.2 [rule] [] rule broken b _ _ rfl (by simp) hlive rfl hfails

end Sweep

end Checkup
