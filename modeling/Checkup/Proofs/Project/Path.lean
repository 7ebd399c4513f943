import Checkup.Project.Walk
import Checkup.Proofs.Text.Piece

/-!
# The last names of paths

A name with no slash in it stays what it is as the last piece of a path: of the written path of an entry of a directory
(`pathParts_joinPath`), of the names it leads to (`Folder.resolve_joinPath`, `Folder.getLast?_resolve_joinPath`), and of
the path that the names of a file make (`isScript_path`).
-/

namespace Checkup

open Text (EndsPiece)

/-! ## Names -/

/-- Whether the name is one of an entry: it has no slash in it and does not stand for a directory that is there
already. -/
def isPlain (name : String) : Bool := !(name.toList.contains '/' || ["", ".", ".."].contains name)

variable {name : String}

theorem isPlain_iff : isPlain name = true ↔ (∀ x ∈ name.toList, (x == '/') = false) ∧ name ∉ ["", ".", ".."] := by
  simp only [isPlain, Bool.not_eq_true', Bool.or_eq_false_iff, List.contains_eq_mem, decide_eq_false_iff_not]
  refine and_congr_left fun _ => ⟨fun h x hx => ?_, fun h hslash => ?_⟩
  · exact beq_false_of_ne fun e => h (e ▸ hx)
  · exact Bool.noConfusion (h '/' hslash)

/-- A written path of an entry of a directory ends with its name. -/
theorem exists_joinPath (dir name : String) :
    ∃ lead, EndsPiece (· == '/') lead ∧ (joinPath dir name).toList = lead ++ name.toList := by
  unfold joinPath
  split
  · rename_i h
    refine ⟨dir.toList, ?_, String.toList_append⟩
    rcases Bool.or_eq_true _ _ ▸ h with h | h
    · exact Or.inl (by simpa using h)
    · obtain ⟨a, ha⟩ := List.isSuffixOf_iff_suffix.mp h
      exact Or.inr ⟨a, '/', rfl, ha.symm⟩
  · exact ⟨dir.toList ++ ['/'], Or.inr ⟨_, '/', rfl, rfl⟩, by simp [toString]⟩

theorem exists_pathParts_joinPath (dir : String) (h : isPlain name = true) :
    ∃ parts, pathParts (joinPath dir name) = parts ++ [name] := by
  obtain ⟨lead, hlead, heq⟩ := exists_joinPath dir name
  obtain ⟨pieces, hpieces⟩ := Text.exists_split_append hlead (isPlain_iff.mp h).1
  refine ⟨pieces.map String.ofList, ?_⟩
  rw [pathParts, heq, hpieces, List.map_append, List.map_singleton, String.ofList_toList]

/-- The parts of the written path of an entry are those of the path of the directory and the name. An empty part at the
end, behind a slash, makes room for it. -/
theorem pathParts_joinPath {dir : String} (hdir : dir ≠ "") (h : isPlain name = true) :
    ∃ parts, (pathParts dir = parts ∨ pathParts dir = parts ++ [""]) ∧
      pathParts (joinPath dir name) = parts ++ [name] := by
  have hname : Text.split (· == '/') name.toList = [name.toList] := Text.splitFrom_of_forall (isPlain_iff.mp h).1 []
  have hslash (a b : Text) :
      Text.split (· == '/') (a ++ '/' :: b) = Text.split (· == '/') a ++ Text.split (· == '/') b :=
    Text.splitFrom_append_cons rfl [] a b
  unfold joinPath
  split
  · rename_i hend
    have hend : Text.endsWith ['/'] dir.toList = true := by simpa [hdir] using hend
    obtain ⟨a, ha⟩ := List.isSuffixOf_iff_suffix.mp hend
    refine ⟨(Text.split (· == '/') a).map String.ofList, Or.inr ?_, ?_⟩
    · rw [pathParts, ← ha, hslash, List.map_append]
      rfl
    · rw [pathParts, String.toList_append, ← ha, List.append_assoc, List.singleton_append, hslash, hname,
        List.map_append, List.map_singleton, String.ofList_toList]
  · refine ⟨pathParts dir, Or.inl rfl, ?_⟩
    have hpath : (s!"{dir}/{name}" : String).toList = dir.toList ++ '/' :: name.toList := by simp [toString]
    rw [pathParts, hpath, hslash, hname, List.map_append, List.map_singleton, String.ofList_toList]
    rfl

/-- A path ends with the last of its names. -/
theorem exists_path (names : Names) (name : String) :
    ∃ lead, EndsPiece (· == '/') lead ∧ (Names.path (names ++ [name])).toList = lead ++ name.toList := by
  induction names with
  | nil => exact ⟨[], Or.inl rfl, by simp [Names.path]⟩
  | cons first names ih =>
    obtain ⟨lead, hlead, heq⟩ := ih
    refine ⟨first.toList ++ '/' :: lead, Or.inr ?_, ?_⟩
    · rcases hlead with rfl | ⟨a, c, hc, rfl⟩
      · exact ⟨first.toList, '/', rfl, rfl⟩
      · exact ⟨first.toList ++ '/' :: a, c, hc, by simp⟩
    · have hne : names ++ [name] ≠ [] := List.append_ne_nil_of_right_ne_nil _ (List.cons_ne_nil _ _)
      calc (Names.path (first :: (names ++ [name]))).toList
        _ = (first ++ "/" ++ Names.path (names ++ [name])).toList := by
          rw [Names.path, String.intercalate_cons_of_ne_nil hne]
          rfl
        _ = (first.toList ++ '/' :: lead) ++ name.toList := by simp [heq]

/-- Whether a file is a source file is told by its name. -/
theorem isScript_path (names : Names) (h : isPlain name = true) :
    Path.isScript (names ++ [name]).path = Path.isScript name := by
  obtain ⟨lead, hlead, heq⟩ := exists_path names name
  have hname : Path.fileName (names ++ [name]).path.toList = Path.fileName name.toList := by
    rw [heq, Path.fileName, Path.fileName, Text.lastPiece_append hlead (isPlain_iff.mp h).1]
    exact (Text.lastPiece_append (Or.inl rfl) (isPlain_iff.mp h).1).symm
  rw [Path.isScript, Path.isScript, Path.extension?, Path.extension?, hname]

/-! ## Following paths -/

namespace Folder

variable (f : Folder)

/-- The parts behind others are followed from where those lead. -/
theorem follow_append (here : Names) (parts rest : List String) :
    f.follow here (parts ++ rest) = (f.follow here parts).bind fun dir => f.follow dir rest := by
  induction parts generalizing here with
  | nil => rfl
  | cons part parts ih =>
    rw [List.cons_append, follow, follow]
    split
    · rfl
    split
    · exact ih here
    split
    · exact ih here.above
    · exact ih (here ++ [part])

/-- A plain name leads from a directory to the entry of that name. -/
theorem follow_name (h : isPlain name = true) (dir : Names) :
    f.follow dir [name] = if f.isDir dir then some (dir ++ [name]) else none := by
  obtain ⟨_, h⟩ := isPlain_iff.mp h
  simp only [List.mem_cons, List.not_mem_nil, or_false, not_or] at h
  obtain ⟨hempty, hdot, hdots⟩ := h
  cases hdir : f.isDir dir <;> simp [follow, hempty, hdot, hdots, hdir]

/-- An empty part stands for the directory itself. -/
theorem follow_empty (dir : Names) : f.follow dir [""] = if f.isDir dir then some dir else none := by
  cases hdir : f.isDir dir <;> simp [follow, hdir]

/-- The path of an entry leads to the entry, if the path of the directory leads to a directory. -/
theorem resolve_joinPath {dir : String} {names : Names} (hdir : f.resolve dir = some names) (h : isPlain name = true) :
    f.resolve (joinPath dir name) = if f.isDir names then some (names ++ [name]) else none := by
  have hne : dir ≠ "" := fun e => by simp [e, resolve] at hdir
  obtain ⟨c, rest, hdirList⟩ := List.exists_cons_of_ne_nil (mt String.toList_eq_nil_iff.mp hne)
  obtain ⟨tail, htail⟩ : ∃ tail, (joinPath dir name).toList = c :: tail := by
    unfold joinPath
    split <;> simp [hdirList, toString]
  have hstart : pathStart (joinPath dir name) = pathStart dir := by
    simp [pathStart, htail, hdirList, Text.startsWith]
  have hne' : joinPath dir name ≠ "" := fun e => by simp [e] at htail
  obtain ⟨parts, hparts, hjoin⟩ := pathParts_joinPath hne h
  rw [resolve, if_neg (by simpa using hne)] at hdir
  rw [resolve, if_neg (by simpa using hne'), hstart, hjoin, follow_append]
  rcases hparts with hparts | hparts
  · rw [← hparts, hdir, Option.bind_some, follow_name f h]
  · rw [hparts, follow_append, Option.bind_eq_some_iff] at hdir
    obtain ⟨here, hhere, heq⟩ := hdir
    rw [follow_empty] at heq
    split at heq
    · cases heq
      rw [hhere, Option.bind_some, follow_name f h]
    · cases heq

/-- The path of an entry of a directory leads to names of which the last is that of the entry. -/
theorem getLast?_resolve_joinPath {dir : String} (h : isPlain name = true) {names : Names}
    (hresolve : f.resolve (joinPath dir name) = some names) : names.getLast? = some name := by
  obtain ⟨parts, hparts⟩ := exists_pathParts_joinPath dir h
  rw [resolve, hparts, follow_append] at hresolve
  split at hresolve
  · cases hresolve
  obtain ⟨here, _, hhere⟩ := Option.bind_eq_some_iff.mp hresolve
  rw [follow_name f h] at hhere
  split at hhere
  · cases hhere
    exact List.getLast?_concat
  · cases hhere

end Folder

end Checkup
