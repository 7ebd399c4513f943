import Mathlib.Data.List.Nodup
import Checkup.Proofs.Project.Removal
import Checkup.Proofs.Sweep.Fault

/-!
# What a walk finds

A walk goes down from a directory and decides at each entry whether to go on. Where no ignore rules are, what it finds
is told by the names that lead to a file alone (`collectSources_eq_ok`).

* `Folder.NoRules`: no ignore rules say anything of what is below a directory.
* `Folder.IsTree`: files have different names, and these have no slash in them.
* `IsSource`: the names that lead to a source file.
* `Folder.reaches_iff`, `isScript_path_iff`: the decisions of the walk, said of all names at once.
* `Names.path_injOn`: files with different names have different paths.
-/

namespace Checkup

open Text (EndsPiece)

/-- Whether the name is hidden. -/
def IsHidden (name : String) : Prop := ['.'] <+: name.toList

instance (name : String) : Decidable (IsHidden name) := inferInstanceAs (Decidable (_ <+: _))

/-- The name ends with a dot and the extension of a source file, in upper or lower case. -/
def HasScriptExtension (name : String) : Prop :=
  ∃ stem extension : Text, name.toList = stem ++ '.' :: extension ∧ '.' ∉ extension ∧
    String.ofList (Text.toLowerAscii extension) ∈ Path.scriptExtensions

/-- What the names are that lead from a directory to a source file. -/
structure IsSource (exclude : List Glob) (below : Names) : Prop where
  visible : ∀ name ∈ below, ¬ IsHidden name
  ours : ∀ name ∈ below.dropLast, name ∉ excludedDirs
  script : ∃ name ∈ below.getLast?, HasScriptExtension name
  kept : ∀ g ∈ exclude, g.isMatch below.path = false

theorem IsSource.ne_nil {exclude : List Glob} {below : Names} (h : IsSource exclude below) : below ≠ [] := by
  obtain ⟨name, hlast, _⟩ := h.script
  exact fun e => by simp [e] at hlast

namespace Folder

/-- In the directory, above it and below it, there is no file of ignore rules, or none with a rule in it. -/
def NoRules (f : Folder) (dir : Names) : Prop :=
  ∀ d, d <+: dir ∨ dir <+: d → ∀ file ∈ ignoreFiles, ∀ bytes, f.file? (d ++ file) = some bytes → ignoreRules bytes = []

/-- The files of a folder are told apart by their names, and no name below the directory has a slash in it. -/
structure IsTree (f : Folder) (dir : Names) : Prop where
  nodup : (f.files.map StoredFile.names).Nodup
  named : ∀ s ∈ f.files, ∀ below, s.names = dir ++ below → ∀ name ∈ below, '/' ∉ name.toList

end Folder

/-! ## Paths -/

section Paths

variable {name : String} {names names' : Names}

theorem forall_ne_slash (h : '/' ∉ name.toList) : ∀ x ∈ name.toList, (x == '/') = false :=
  fun _ hx => beq_false_of_ne fun e => h (e ▸ hx)

/-- The pieces of a path are its names. -/
theorem Names.split_path (hne : names ≠ []) (h : ∀ name ∈ names, '/' ∉ name.toList) :
    Text.split (· == '/') names.path.toList = names.map String.toList := by
  induction names with
  | nil => exact absurd rfl hne
  | cons first names ih =>
    obtain ⟨hfirst, hnames⟩ := List.forall_mem_cons.mp h
    have hsplit : Text.split (· == '/') first.toList = [first.toList] :=
      Text.splitFrom_of_forall (forall_ne_slash hfirst) []
    cases names with
    | nil => simpa [Names.path] using hsplit
    | cons next names =>
      have hpath : (Names.path (first :: next :: names)).toList =
          first.toList ++ '/' :: (Names.path (next :: names)).toList := by
        rw [Names.path, String.intercalate_cons_of_ne_nil (List.cons_ne_nil _ _)]
        simp [Names.path]
      rw [hpath, Text.split, Text.splitFrom_append_cons rfl, ih (List.cons_ne_nil _ _) hnames]
      change Text.split _ first.toList ++ _ = _
      rw [hsplit]
      rfl

/-- Different names make different paths. -/
theorem Names.path_injOn (hne : names ≠ []) (hne' : names' ≠ []) (h : ∀ name ∈ names, '/' ∉ name.toList)
    (h' : ∀ name ∈ names', '/' ∉ name.toList) (heq : names.path = names'.path) : names = names' := by
  have hsplit := Names.split_path hne h
  rw [heq, Names.split_path hne' h'] at hsplit
  exact (List.map_injective_iff.mpr (fun _ _ => String.toList_injective) hsplit).symm

/-- What follows the last dot. -/
theorem Path.lastPiece_dot_iff {t e : Text} :
    '.' ∈ t ∧ Text.lastPiece (· == '.') t = e ↔ ∃ stem, t = stem ++ '.' :: e ∧ '.' ∉ e := by
  have hlast (stem : Text) {e : Text} (he : '.' ∉ e) : Text.lastPiece (· == '.') (stem ++ '.' :: e) = e := by
    have hlead : EndsPiece (· == '.') (stem ++ ['.']) := Or.inr ⟨stem, '.', rfl, rfl⟩
    have := Text.lastPiece_append hlead fun x hx => beq_false_of_ne fun hdot => he (hdot ▸ hx)
    rwa [List.append_assoc] at this
  constructor
  · rintro ⟨hdot, rfl⟩
    obtain ⟨rest, stem, ht, hrest⟩ := List.eq_append_cons_of_mem (List.mem_reverse.mpr hdot)
    have ht : t = stem.reverse ++ '.' :: rest.reverse := by simpa using congrArg List.reverse ht
    have hrest : '.' ∉ rest.reverse := by simpa using hrest
    refine ⟨stem.reverse, ?_, ?_⟩ <;> rw [ht, hlast _ hrest]
    exact hrest
  · rintro ⟨stem, rfl, he⟩
    exact ⟨by simp, hlast stem he⟩

/-- Whether a path is that of a source file is told by the last name. -/
theorem isScript_path_iff (names : Names) (h : '/' ∉ name.toList) :
    Path.isScript (names ++ [name]).path = true ↔ HasScriptExtension name := by
  obtain ⟨lead, hlead, heq⟩ := exists_path names name
  have hname : Path.fileName (names ++ [name]).path.toList = name.toList := by
    rw [heq, Path.fileName, Text.lastPiece_append hlead (forall_ne_slash h)]
  have hext (e : Text) : Path.extension? (names ++ [name]).path.toList = some e ↔
      ∃ stem, name.toList = stem ++ '.' :: e ∧ '.' ∉ e := by
    rw [← Path.lastPiece_dot_iff, Path.extension?, hname]
    simp
  simp only [Path.isScript, Option.any_eq_true, hext, List.contains_iff_mem, HasScriptExtension]
  constructor
  · rintro ⟨e, ⟨stem, hstem, he⟩, hscript⟩
    exact ⟨stem, e, hstem, he, hscript⟩
  · rintro ⟨stem, e, hstem, he, hscript⟩
    exact ⟨e, ⟨stem, hstem, he⟩, hscript⟩

end Paths

/-! ## The way to a file -/

namespace Folder

variable {f : Folder} {dir below : Names} {name : String} {isDir : Bool}

/-- Without files of ignore rules there are no rules. -/
theorem noRules_of_files (h : ∀ s ∈ f.files, ∀ file ∈ ignoreFiles, ¬ file <:+ s.names) (dir : Names) :
    f.NoRules dir := by
  intro d _ file hfile bytes hbytes
  obtain ⟨s, hs, _⟩ := Option.map_eq_some_iff.mp hbytes
  have hnames : s.names = d ++ file := by simpa using List.find?_some hs
  exact absurd ⟨d, hnames.symm⟩ (h s (List.mem_of_find?_eq_some hs) file hfile)

theorem NoRules.verdictFrom (h : f.NoRules dir) {d : Names} (hd : d <+: dir) {file : Names} (hfile : file ∈ ignoreFiles)
    (below : Names) (isDir : Bool) : f.verdictFrom file d below isDir = none := by
  rw [Folder.verdictFrom]
  split
  · rfl
  · rename_i bytes hbytes
    rw [h d (Or.inl hd) file hfile bytes hbytes]
    rfl

theorem NoRules.nearestVerdict (h : f.NoRules dir) {file : Names} (hfile : file ∈ ignoreFiles) (isDir : Bool)
    {up : Names} (hup : up.reverse <+: dir) (below : Names) : f.nearestVerdict file isDir up below = none := by
  induction up generalizing below with
  | nil => exact h.verdictFrom List.nil_prefix hfile below isDir
  | cons last up ih =>
    have hleads : up.reverse <+: dir := by
      rw [List.reverse_cons] at hup
      exact (List.prefix_append _ _).trans hup
    rw [Folder.nearestVerdict, h.verdictFrom hup hfile, ih hleads, ite_self, Option.or_none]

/-- Nothing is said of the entries of the directory. -/
theorem NoRules.verdictOn (h : f.NoRules dir) (name : String) (isDir : Bool) :
    f.verdictOn (dir ++ [name]) isDir = none := by
  have hdir : dir.reverse.reverse <+: dir := by simp
  rw [Folder.verdictOn, List.reverse_concat]
  exact List.findSome?_eq_none_iff.mpr fun file hfile => h.nearestVerdict hfile isDir hdir _

/-- Nothing is said of what is farther below. -/
theorem NoRules.child (h : f.NoRules dir) (name : String) : f.NoRules (dir ++ [name]) := by
  rintro d (hd | hd)
  · rcases List.prefix_concat_iff.mp hd with rfl | hd
    · exact h _ (Or.inr (List.prefix_append _ _))
    · exact h d (Or.inl hd)
  · exact h d (Or.inr ((List.prefix_append _ _).trans hd))

theorem visits_iff (h : f.NoRules dir) :
    f.visits (dir ++ [name]) isDir = true ↔ ¬ IsHidden name ∧ (isDir = true → name ∉ excludedDirs) := by
  have hhidden : Text.startsWith ['.'] name.toList = true ↔ IsHidden name := List.isPrefixOf_iff_prefix
  rw [visits, h.verdictOn, List.getLast?_concat, Option.getD_some, ← hhidden]
  cases isDir <;> by_cases hname : name ∈ excludedDirs <;> simp [hname]

/-- A walk comes to a file if no name on the way is hidden and no directory holds other things than sources. -/
theorem reaches_iff (h : f.NoRules dir) : f.reaches dir below = true ↔
    below ≠ [] ∧ (∀ name ∈ below, ¬ IsHidden name) ∧ ∀ name ∈ below.dropLast, name ∉ excludedDirs := by
  fun_induction reaches f dir below with
  | case1 dir => simp
  | case2 dir name => simp [visits_iff h]
  | case3 dir name below hbelow ih =>
    have hne : below ≠ [] := fun e => hbelow e
    rw [Bool.and_eq_true, visits_iff h, ih (h.child name), List.dropLast_cons_of_ne_nil hne]
    simp only [List.forall_mem_cons, ne_eq, reduceCtorEq, not_false_eq_true, hne, true_and, forall_const]
    exact and_and_and_comm

theorem below?_eq_some_iff {s : StoredFile} : below? dir s = some below ↔ s.names = dir ++ below ∧ below ≠ [] := by
  rw [below?]
  constructor
  · intro h
    split at h
    · rename_i hdir
      obtain ⟨hleads, hlength⟩ := Bool.and_eq_true _ _ ▸ hdir
      obtain ⟨rest, hrest⟩ := List.isPrefixOf_iff_prefix.mp hleads
      cases h
      rw [← hrest, List.drop_left]
      refine ⟨rfl, fun e => ?_⟩
      simp [← hrest, e] at hlength
    · cases h
  · rintro ⟨hnames, hne⟩
    have hlength := List.length_pos_iff.mpr hne
    simp [hnames, hlength]

/-- What a walk asks of a file and of the way to it, said of the names. -/
theorem isSource_iff (h : f.NoRules dir) (hnamed : ∀ name ∈ below, '/' ∉ name.toList) {exclude : List Glob} :
    (Path.isScript below.path && f.reaches dir below && !isFiltered exclude below.path) = true ↔
      IsSource exclude below := by
  have hkept : (!isFiltered exclude below.path) = true ↔ ∀ g ∈ exclude, g.isMatch below.path = false := by
    simp [isFiltered]
  have hscript (name : String) (hlast : below.getLast? = some name) :
      Path.isScript below.path = true ↔ HasScriptExtension name := by
    rw [← List.dropLast_append_getLast? name hlast]
    exact isScript_path_iff _ (hnamed name (List.mem_of_getLast? hlast))
  rw [Bool.and_eq_true, Bool.and_eq_true, reaches_iff h, hkept]
  constructor
  · rintro ⟨⟨hext, hne, hvisible, hours⟩, hkept⟩
    have hlast := List.getLast?_eq_some_getLast hne
    exact ⟨hvisible, hours, ⟨_, hlast, (hscript _ hlast).mp hext⟩, hkept⟩
  · intro hsource
    obtain ⟨name, hlast, hext⟩ := hsource.script
    exact ⟨⟨(hscript name hlast).mpr hext, hsource.ne_nil, hsource.visible, hsource.ours⟩, hsource.kept⟩

/-- A file is a source file exactly if the names that lead to it are those of one. -/
theorem source?_eq_some_iff (h : f.NoRules dir) (htree : f.IsTree dir) {exclude : List Glob} {s : StoredFile}
    (hs : s ∈ f.files) {file : SourceFile} : f.source? exclude dir s = some file ↔
      ∃ below, s.names = dir ++ below ∧ IsSource exclude below ∧ file = ⟨below.path, Utf8.lossyText s.bytes⟩ := by
  rw [source?]
  constructor
  · intro hsource
    split at hsource
    · cases hsource
    · rename_i below hbelow
      obtain ⟨hnames, _⟩ := below?_eq_some_iff.mp hbelow
      split at hsource
      · rename_i hif
        exact ⟨below, hnames, (isSource_iff h (htree.named s hs below hnames)).mp hif, (Option.some.inj hsource).symm⟩
      · cases hsource
  · rintro ⟨below, hnames, hsource, rfl⟩
    rw [below?_eq_some_iff.mpr ⟨hnames, hsource.ne_nil⟩]
    exact if_pos ((isSource_iff h (htree.named s hs below hnames)).mpr hsource)

/-- The source files have different paths. -/
theorem source?_paths_nodup (h : f.NoRules dir) (htree : f.IsTree dir) (exclude : List Glob) :
    ((f.files.filterMap (f.source? exclude dir)).map SourceFile.path).Nodup := by
  refine List.pairwise_map.mpr (List.pairwise_filterMap.mpr ?_)
  refine (List.pairwise_map.mp htree.nodup).imp_of_mem fun {s s'} hs hs' hne file hfile file' hfile' hpath => hne ?_
  obtain ⟨below, hnames, hsource, rfl⟩ := (source?_eq_some_iff h htree hs).mp hfile
  obtain ⟨below', hnames', hsource', rfl⟩ := (source?_eq_some_iff h htree hs').mp hfile'
  rw [hnames, hnames', Names.path_injOn hsource.ne_nil hsource'.ne_nil (htree.named s hs below hnames)
    (htree.named s' hs' below' hnames') hpath]

end Folder

/-- **What a walk finds.** From a directory of a tree without ignore rules, a walk returns the source files in the order
of the bytes of their paths, each of them once: the files below the directory such that no name on the way is hidden, no
directory on the way is one that holds no sources, the last name has the extension of a source file in upper or lower
case, and no glob matches the path. -/
theorem collectSources_eq_ok {f : Folder} {root : String} {dir : Names} (hroot : f.resolve root = some dir)
    (hdir : f.isDir dir = true) (htree : f.IsTree dir) (hrules : f.NoRules dir) (exclude : List Glob) :
    ∃ files, collectSources f root exclude = .ok files ∧
      files.Pairwise (fun a b => a.path.toByteArray.data.toList < b.path.toByteArray.data.toList) ∧
      ∀ file, file ∈ files ↔ ∃ s ∈ f.files, ∃ below, s.names = dir ++ below ∧ IsSource exclude below ∧
        file = ⟨below.path, Utf8.lossyText s.bytes⟩ := by
  refine ⟨sortByPath (f.files.filterMap (f.source? exclude dir)), ?_, ?_, fun file => ?_⟩
  · rw [collectSources, hroot]
    simp [hdir]
  · exact sortByPath_bytewise (Folder.source?_paths_nodup hrules htree exclude)
  · rw [mem_sortByPath, List.mem_filterMap]
    exact exists_congr fun s => and_congr_right fun hs => Folder.source?_eq_some_iff hrules htree hs

/-- A folder with files that are hidden, generated, built, and no sources. -/
theorem collectSources_eq_ok_folder :
    let f : Folder := ⟨[⟨["src", "page.TSX"], [0x61]⟩, ⟨["src", "build", "page.js"], []⟩, ⟨["lib", "build.ts"], []⟩,
      ⟨["gen", "api.ts"], []⟩, ⟨[".eslintrc.js"], []⟩, ⟨["README.md"], []⟩], []⟩
    f.resolve "." = some [] ∧ f.isDir [] = true ∧ f.IsTree [] ∧ f.NoRules [] ∧
      ∃ globs files, filterGlobs ["gen/"] = .ok globs ∧ collectSources f "." globs = .ok files ∧
        files.Pairwise (fun a b => a.path.toByteArray.data.toList < b.path.toByteArray.data.toList) ∧
        ⟨"src/page.TSX", ['a']⟩ ∈ files ∧
        ∀ file ∈ files, file.path ≠ "src/build/page.js" ∧ file.path ≠ "gen/api.ts" := by
  intro f
  have hroot : f.resolve "." = some [] := by decide
  have hslash : ∀ s ∈ f.files, ∀ name ∈ s.names, '/' ∉ name.toList := by decide
  have htree : f.IsTree [] := ⟨by decide, fun s hs below hnames => List.nil_append below ▸ hnames ▸ hslash s hs⟩
  have hrules : f.NoRules [] := Folder.noRules_of_files (by decide) []
  have hfilter : (filterGlobs ["gen/"]).toOption.map (fun globs =>
      (isFiltered globs "src/page.TSX", isFiltered globs "gen/api.ts")) = some (false, true) := by decide +kernel
  cases hglobs : filterGlobs ["gen/"] with
  | error fault => simp [hglobs, Except.toOption] at hfilter
  | ok globs =>
    simp only [hglobs, Except.toOption, Option.map_some, Option.some.injEq, Prod.mk.injEq, isFiltered,
      List.any_eq_false, List.any_eq_true, Bool.not_eq_true] at hfilter
    obtain ⟨hkept, g, hg, hgen⟩ := hfilter
    obtain ⟨files, hfiles, hsorted, hmem⟩ := collectSources_eq_ok hroot rfl htree hrules globs
    refine ⟨hroot, rfl, htree, hrules, globs, files, rfl, hfiles, hsorted, ?_, fun file hfile => ?_⟩
    · refine (hmem _).mpr ⟨⟨["src", "page.TSX"], [0x61]⟩, by simp [f], ["src", "page.TSX"], rfl, ?_, ?_⟩
      · exact ⟨by decide, by decide, ⟨"page.TSX", rfl, "page".toList, "TSX".toList, rfl, by decide, by decide⟩, hkept⟩
      · rw [SourceFile.mk.injEq]
        decide
    · obtain ⟨s, hs, below, rfl, hsource, rfl⟩ := (hmem file).mp hfile
      constructor
      · intro hpath
        have hbuild : ∀ s ∈ f.files, s.names.path = "src/build/page.js" → "build" ∈ s.names.dropLast := by decide
        exact hsource.ours "build" (hbuild s hs hpath) (by decide)
      · intro hpath
        have := hsource.kept g hg
        rw [show Names.path _ = "gen/api.ts" from hpath, hgen] at this
        cases this

end Checkup
