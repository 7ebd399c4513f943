import Mathlib.Data.List.Basic
import Checkup.Project.ConfigCheck
import Checkup.Proofs.Project.Path

/-!
# Folders without one of their files

`Folder.erase` takes a file out of a folder and leaves the directory that held it. Whatever looks at the folder without
looking for a file of that name sees no difference (`Folder.AgreeBut`): a walk does not if the file is no source file
and has no ignore rules (`collectSources_erase`).
-/

namespace Checkup

namespace Folder

/-- The folder without a file. The directory that held it stays. -/
def erase (f : Folder) (names : Names) : Folder :=
  ⟨f.files.filter fun s => s.names != names, names.dropLast :: f.dirs⟩

/-- The folders have the same directories, and the same files but for those of one name. -/
structure AgreeBut (name : String) (f g : Folder) : Prop where
  isDir : ∀ names, f.isDir names = g.isDir names
  file? : ∀ names, names.getLast? ≠ some name → f.file? names = g.file? names

variable {f g : Folder} {name other : String} {names : Names}

/-! ## The file that is taken out -/

/-- The file is gone, and all other files are there. -/
theorem file?_erase (f : Folder) (names ns : Names) :
    (f.erase names).file? ns = if ns = names then none else f.file? ns := by
  simp only [file?, erase, List.find?_filter]
  split
  · rename_i h
    rw [List.find?_eq_none.mpr fun s _ => by simp [h], Option.map_none]
  · rename_i h
    congr 2
    funext s
    by_cases hs : s.names = ns <;> simp [hs, h]

/-- What leads to the directory of a file leads to the file, and is shorter. -/
theorem prefix_dropLast_iff {ns : Names} (hne : names ≠ []) :
    ns <+: names.dropLast ↔ ns <+: names ∧ ns.length < names.length := by
  constructor
  · intro h
    have hlt : names.dropLast.length < names.length :=
      List.length_dropLast ▸ Nat.sub_lt (List.length_pos_iff.mpr hne) Nat.one_pos
    exact ⟨h.trans names.dropLast_prefix, Nat.lt_of_le_of_lt h.length_le hlt⟩
  · rintro ⟨h, hlt⟩
    rw [← List.dropLast_append_getLast hne, List.prefix_concat_iff] at h
    rcases h with rfl | h
    · rw [List.dropLast_append_getLast] at hlt
      exact absurd hlt (Nat.lt_irrefl _)
    · exact h

/-- The directories are the same. That of the file is there on its own account now. -/
theorem isDir_erase (h : (f.file? names).isSome) (hne : names ≠ []) (ns : Names) :
    (f.erase names).isDir ns = f.isDir ns := by
  obtain ⟨s, hs, rfl⟩ : ∃ s ∈ f.files, s.names = names := by
    simpa only [file?, Option.isSome_map, List.find?_isSome, beq_iff_eq] using h
  rw [Bool.eq_iff_iff]
  simp only [isDir, erase, List.any_cons, List.any_filter, Bool.or_eq_true, List.any_eq_true, Bool.and_eq_true,
    List.isPrefixOf_iff_prefix, decide_eq_true_eq, bne_iff_ne, prefix_dropLast_iff hne, or_assoc]
  constructor
  · rintro (h | h | h | ⟨t, ht, _, h⟩)
    · exact Or.inl h
    · exact Or.inr (Or.inr ⟨s, hs, h⟩)
    · exact Or.inr (Or.inl h)
    · exact Or.inr (Or.inr ⟨t, ht, h⟩)
  · rintro (h | h | ⟨t, ht, h⟩)
    · exact Or.inl h
    · exact Or.inr (Or.inr (Or.inl h))
    · by_cases hts : t.names = s.names
      · exact Or.inr (Or.inl (hts ▸ h))
      · exact Or.inr (Or.inr (Or.inr ⟨t, ht, hts, h⟩))

theorem agreeBut_erase (h : (f.file? names).isSome) (hname : names.getLast? = some name) :
    AgreeBut name f (f.erase names) where
  isDir ns := (isDir_erase h (fun e => by simp [e] at hname) ns).symm
  file? ns hns := by
    have hne : ns ≠ names := fun e => hns (e ▸ hname)
    rw [file?_erase, if_neg hne]

/-! ## Following paths -/

theorem AgreeBut.follow (h : AgreeBut name f g) (here : Names) (parts : List String) :
    f.follow here parts = g.follow here parts := by
  induction parts generalizing here with
  | nil => rfl
  | cons part parts ih => simp only [Folder.follow, h.isDir, ih]

theorem AgreeBut.resolve (h : AgreeBut name f g) (path : String) : f.resolve path = g.resolve path := by
  rw [Folder.resolve, Folder.resolve, h.follow]

theorem AgreeBut.isDirAt (h : AgreeBut name f g) (path : String) : f.isDirAt path = g.isDirAt path := by
  rw [Folder.isDirAt, Folder.isDirAt, h.resolve, funext h.isDir]

/-- An entry of another name is the same in both folders. -/
theorem AgreeBut.fileAt? (h : AgreeBut name f g) (dir : String) (hother : isPlain other = true) (hne : other ≠ name) :
    f.fileAt? (joinPath dir other) = g.fileAt? (joinPath dir other) := by
  rw [Folder.fileAt?, Folder.fileAt?, ← h.resolve]
  refine Option.bind_congr fun ns hns => h.file? ns ?_
  rw [f.getLast?_resolve_joinPath hother hns]
  exact fun e => hne (Option.some.inj e)

theorem AgreeBut.load {α : Type} (h : AgreeBut name f g) (dir : String) (hother : isPlain other = true)
    (hne : other ≠ name) (parse : Text → Option α) :
    f.load (joinPath dir other) parse = g.load (joinPath dir other) parse := by
  rw [Folder.load, Folder.load, h.fileAt? dir hother hne]

/-! ## Walks -/

/-- Files of ignore rules have other names. -/
abbrev NoIgnoreFile (name : String) : Prop := ∀ file ∈ ignoreFiles, file.getLast? ≠ some name

theorem AgreeBut.verdictFrom (h : AgreeBut name f g) {file : Names} (hfile : file.getLast? ≠ some name)
    (hne : file ≠ []) (dir below : Names) (isDir : Bool) :
    f.verdictFrom file dir below isDir = g.verdictFrom file dir below isDir := by
  have hlast : (dir ++ file).getLast? ≠ some name := by rwa [List.getLast?_append_of_ne_nil _ hne]
  rw [Folder.verdictFrom, Folder.verdictFrom, h.file? _ hlast]

theorem AgreeBut.nearestVerdict (h : AgreeBut name f g) {file : Names} (hfile : file.getLast? ≠ some name)
    (hne : file ≠ []) (isDir : Bool) (dir below : Names) :
    f.nearestVerdict file isDir dir below = g.nearestVerdict file isDir dir below := by
  induction dir generalizing below with
  | nil => exact h.verdictFrom hfile hne _ _ _
  | cons first dir ih => rw [Folder.nearestVerdict, Folder.nearestVerdict, h.verdictFrom hfile hne, ih]

theorem AgreeBut.verdictOn (h : AgreeBut name f g) (hname : NoIgnoreFile name) (names : Names) (isDir : Bool) :
    f.verdictOn names isDir = g.verdictOn names isDir := by
  have hempty : ∀ file ∈ ignoreFiles, file ≠ [] := by decide
  have hnearest : ∀ file ∈ ignoreFiles, ∀ dir below,
      f.nearestVerdict file isDir dir below = g.nearestVerdict file isDir dir below :=
    fun file hfile => h.nearestVerdict (hname file hfile) (hempty file hfile) isDir
  simp only [ignoreFiles, List.forall_mem_cons] at hnearest
  unfold Folder.verdictOn
  split
  · rfl
  · simp only [ignoreFiles, List.findSome?_cons, List.findSome?_nil, hnearest]

theorem AgreeBut.visits (h : AgreeBut name f g) (hname : NoIgnoreFile name) (names : Names) (isDir : Bool) :
    f.visits names isDir = g.visits names isDir := by
  rw [Folder.visits, Folder.visits, h.verdictOn hname]

theorem AgreeBut.reaches (h : AgreeBut name f g) (hname : NoIgnoreFile name) (dir below : Names) :
    f.reaches dir below = g.reaches dir below := by
  fun_induction Folder.reaches f dir below with
  | case1 => rfl
  | case2 dir last => exact h.visits hname _ _
  | case3 dir first below hbelow ih => rw [Folder.reaches, h.visits hname, ih]; exact hbelow

theorem AgreeBut.source? (h : AgreeBut name f g) (hname : NoIgnoreFile name) (exclude : List Glob) (dir : Names)
    (s : StoredFile) : f.source? exclude dir s = g.source? exclude dir s := by
  simp only [Folder.source?, h.reaches hname]

theorem getLast?_of_below? {dir below : Names} {s : StoredFile} (h : below? dir s = some below) :
    below.getLast? = s.names.getLast? := by
  unfold below? at h
  split at h
  · rename_i hdir
    cases h
    simp only [Bool.and_eq_true, decide_eq_true_eq] at hdir
    rw [List.getLast?_drop, if_neg (Nat.not_le.mpr hdir.2)]
  · cases h

/-- A file whose name is not that of a source file is none. -/
theorem source?_eq_none (hname : isPlain name = true) (hscript : Path.isScript name = false) (exclude : List Glob)
    (dir : Names) {s : StoredFile} (hs : s.names.getLast? = some name) : f.source? exclude dir s = none := by
  unfold source?
  split
  · rfl
  · rename_i below hbelow
    have hlast : below.getLast? = some name := (getLast?_of_below? hbelow).trans hs
    have hpath : Path.isScript below.path = false := by
      rw [← List.dropLast_append_getLast? name hlast, isScript_path _ hname, hscript]
    rw [hpath]
    rfl

/-- A walk finds the same source files without a file that is none and has no ignore rules. -/
theorem collectSources_erase (h : (f.file? names).isSome) (hlast : names.getLast? = some name)
    (hname : isPlain name = true) (hscript : Path.isScript name = false) (hignore : NoIgnoreFile name) (root : String)
    (exclude : List Glob) : collectSources (f.erase names) root exclude = collectSources f root exclude := by
  have hagree := agreeBut_erase h hlast
  have hsources : ∀ dir, (f.erase names).files.filterMap ((f.erase names).source? exclude dir) =
      f.files.filterMap (f.source? exclude dir) := by
    intro dir
    rw [erase, List.filterMap_filter]
    refine List.filterMap_congr fun s _ => ?_
    split
    · exact (hagree.source? hignore exclude dir s).symm
    · rename_i hs
      have hs : s.names = names := by simpa using hs
      exact (source?_eq_none hname hscript exclude dir (hs ▸ hlast)).symm
  rw [collectSources, collectSources, ← hagree.resolve]
  simp only [← hagree.isDir, hsources]

end Folder

/-- The configuration of Next.js is in files of other names. -/
theorem Folder.AgreeBut.configFindings {f g : Folder} {name : String} (h : f.AgreeBut name g)
    (hname : name ∉ nextConfigNames) (root : String) (c : Option TsConfig) :
    configFindings f root c = configFindings g root c := by
  have hplain : ∀ other ∈ nextConfigNames, isPlain other = true := by decide
  have hfile : ∀ other ∈ nextConfigNames, f.fileAt? (joinPath root other) = g.fileAt? (joinPath root other) :=
    fun other hother => h.fileAt? root (hplain other hother) fun e => hname (e ▸ hother)
  refine congrArg ((c.map tsConfigFindings).getD [] ++ ·) (List.flatMap_congr fun other hother => ?_)
  rw [hfile other hother]

end Checkup
