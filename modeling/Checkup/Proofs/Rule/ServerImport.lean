import Checkup.Proofs.Source.DirectiveMark
import Checkup.Rule.Boundary

/-!
# Modules of the server with and without their mark

The mark `node:` says that a module is one of the runtime's own. A specifier is reported if it is an entry of the table
with or without the mark, and if it is a part of an entry, but then only as it is written.

* `isServerOnly_iff`, `isServerOnly_marked_iff`: the verdict on a specifier, and on the one with the mark.
* `reportsImport_iff`: an import is reported if its file runs in the browser and its specifier has that verdict.
* `serverImport_marked`: when the import of a file is still reported once it is written with the mark.
-/

namespace Checkup

variable {tables : RuleTables} {path : String} {content s : Text} {r : ImportRef}

/-! ## The verdict -/

/-- The mark of the modules that are the runtime's own. -/
def builtinMark : Text := "node:".toList

/-- Whether the specifier is of a part of the module. -/
def IsPart (module s : Text) : Prop := ∃ part, s = module ++ '/' :: part

theorem isPart_iff {module : Text} :
    ((Text.after? module s).any fun rest => rest.head? == some '/') = true ↔ IsPart module s := by
  rw [Option.any_eq_true]
  constructor
  · rintro ⟨rest, hafter, hhead⟩
    obtain ⟨part, rfl⟩ := List.head?_eq_some_iff.mp (eq_of_beq hhead)
    exact ⟨part, Text.after?_eq_some_iff.mp hafter⟩
  · rintro ⟨part, rfl⟩
    exact ⟨'/' :: part, Text.after?_eq_some_iff.mpr rfl, rfl⟩

/-- A specifier has the verdict if it is an entry of the table, is one without its mark, or is a part of one. -/
theorem isServerOnly_iff : tables.isServerOnly s = true ↔ ∃ entry ∈ tables.serverOnlyModules,
    s = entry.toList ∨ s = builtinMark ++ entry.toList ∨ IsPart entry.toList s := by
  have hbare (entry : Text) : s = entry ∨ (Text.after? builtinMark s).getD s = entry ↔
      s = entry ∨ s = builtinMark ++ entry := by
    cases hafter : Text.after? builtinMark s with
    | none =>
      have hunmarked : s ≠ builtinMark ++ entry := fun h => by
        rw [Text.after?_eq_some_iff.mpr h] at hafter
        cases hafter
      simp [hunmarked]
    | some rest =>
      rw [Text.after?_eq_some_iff.mp hafter]
      simp
  rw [RuleTables.isServerOnly, List.any_eq_true]
  refine exists_congr fun entry => and_congr_right fun _ => ?_
  simp only [Bool.or_eq_true, beq_iff_eq, isPart_iff]
  rw [← or_assoc, ← hbare]
  rfl

/-- With the mark, a specifier has the verdict if it is an entry with or without it, or is a part of one with it. -/
theorem isServerOnly_marked_iff : tables.isServerOnly (builtinMark ++ s) = true ↔ ∃ entry ∈ tables.serverOnlyModules,
    entry.toList = s ∨ entry.toList = builtinMark ++ s ∨ IsPart entry.toList (builtinMark ++ s) := by
  rw [isServerOnly_iff]
  refine exists_congr fun entry => and_congr_right fun _ => ?_
  rw [List.append_cancel_left_eq, eq_comm, eq_comm (a := s), or_left_comm]

/-! ## The rule -/

/-- The finding about an import. -/
def importFinding (path : String) (content : Text) (r : ImportRef) : Finding :=
  serverImportInClientInfo.finding path <| Spot.atOffset content r.offset
    s!"server-only module `{String.ofList r.specifier}` imported in a client component"
    "Move this logic into a server component or server action and pass the result down"

/-- Whether the rule reports the import of a file. -/
def ReportsImport (tables : RuleTables) (path : String) (content : Text) (r : ImportRef) : Prop :=
  r ∈ imports content ∧
    ∃ fs, (serverImportInClient tables).detect path content = .ok fs ∧ importFinding path content r ∈ fs

/-- A finding names the specifier that it is about. -/
theorem specifier_eq_of_importFinding {r' : ImportRef}
    (h : importFinding path content r = importFinding path content r') : r.specifier = r'.specifier := by
  have hmessage := congrArg (fun f : Finding => f.message.toList) h
  simpa [importFinding, RuleInfo.finding, Spot.atOffset, ToString.toString] using hmessage

theorem detect_serverImportInClient : (serverImportInClient tables).detect path content =
    .ok (if isClientFile content = true then
      ((imports content).filter fun r => tables.isServerOnly r.specifier).map (importFinding path content)
        else []) := by
  have hspots : (serverImportInClient tables).detect path content = .ok ((if !isClientFile content then []
      else ((imports content).filter fun r => tables.isServerOnly r.specifier).map fun r =>
        Spot.atOffset content r.offset
          s!"server-only module `{String.ofList r.specifier}` imported in a client component"
          "Move this logic into a server component or server action and pass the result down").map
      (serverImportInClientInfo.finding path)) := rfl
  rw [hspots]
  cases isClientFile content with
  | false => rfl
  | true => exact congrArg Except.ok List.map_map

/-- An import is reported if its file runs in the browser and its specifier has the verdict. -/
theorem reportsImport_iff : ReportsImport tables path content r ↔
    r ∈ imports content ∧ isClientFile content = true ∧ tables.isServerOnly r.specifier = true := by
  refine and_congr_right fun hr => ?_
  rw [detect_serverImportInClient]
  constructor
  · rintro ⟨_, ⟨⟩, hmem⟩
    split at hmem
    · rename_i hclient
      obtain ⟨r', hr', hfinding⟩ := List.mem_map.mp hmem
      rw [← specifier_eq_of_importFinding hfinding]
      exact ⟨hclient, (List.mem_filter.mp hr').2⟩
    · cases hmem
  · rintro ⟨hclient, hserver⟩
    rw [if_pos hclient]
    exact ⟨_, rfl, List.mem_map_of_mem (List.mem_filter.mpr ⟨hr, hserver⟩)⟩

/-! ## Imports with and without the mark -/

theorem isMark_builtinMark : IsMark builtinMark := ⟨by decide, by decide⟩

theorem isClientFile_iff : isClientFile content = true ↔ ∃ n, findDirective content = some (.client, n) := by
  rw [isClientFile, directive, beq_iff_eq, Option.map_eq_some_iff]
  constructor
  · rintro ⟨⟨_, n⟩, hd, rfl⟩
    exact ⟨n, hd⟩
  · rintro ⟨n, hd⟩
    exact ⟨_, hd, rfl⟩

/-- **An import with the mark of builtin modules.** Take an import that the rule reports in a file, and put the mark in
front of its specifier. The file imports the marked specifier at the same place, and it still runs in the browser unless
the specifier was the directive. If it does, the import is reported if and only if the table has the specifier, with or
without the mark, or has a module that the marked specifier is a part of: a specifier that is only a part of a module is
not reported any more. -/
theorem serverImport_marked (h : ReportsImport tables path content r) :
    (∃ front q q' rear, Quotes content r front q q' rear) ∧
    ∀ front q q' rear, Quotes content r front q q' rear →
      let marked := front ++ q :: (builtinMark ++ (r.specifier ++ q' :: rear))
      let r' : ImportRef := ⟨builtinMark ++ r.specifier, r.offset⟩
      r' ∈ imports marked ∧ (importFinding path marked r').location = (importFinding path content r).location ∧
        (r.specifier ≠ Directive.client.words → isClientFile marked = true) ∧
        (ReportsImport tables path marked r' ↔ isClientFile marked = true ∧ ∃ entry ∈ tables.serverOnlyModules,
          entry.toList = r.specifier ∨ entry.toList = builtinMark ++ r.specifier ∨
            IsPart entry.toList (builtinMark ++ r.specifier)) := by
  obtain ⟨hr, hclient, -⟩ := reportsImport_iff.mp h
  refine ⟨exists_quotes hr, fun front q q' rear hquotes => ?_⟩
  have hmem := hquotes.mem_imports_marked hr isMark_builtinMark
  refine ⟨hmem, ?_, fun hne => ?_, ?_⟩
  · have hplace (rest : Text) : Text.lineCol (front ++ q :: rest) r.offset = Text.place (front ++ [q]) := by
      rw [hquotes.offset_eq, ← Text.lineCol_append _ rest, List.append_assoc, List.singleton_append]
    simp only [importFinding, RuleInfo.finding, Spot.atOffset, hplace, hquotes.content_eq]
  · obtain ⟨n, hd⟩ := isClientFile_iff.mp hclient
    rw [hquotes.content_eq] at hd
    have hwords (d : Directive) : d.words ≠ builtinMark ++ r.specifier := by
      intro h
      cases d <;> cases (List.cons.inj h).1
    exact isClientFile_iff.mpr ⟨n, findDirective_mark front rear hquotes.opening hquotes.closing hquotes.plain
      isMark_builtinMark hne.symm hwords hd⟩
  · rw [reportsImport_iff, and_iff_right hmem, isServerOnly_marked_iff]

theorem mem_imports_of_map {n : Nat} (h : (s, n) ∈ (imports content).map fun r => (r.specifier, r.offset)) :
    ⟨s, n⟩ ∈ imports content := by
  obtain ⟨r, hr, hpair⟩ := List.mem_map.mp h
  obtain ⟨rfl, rfl⟩ := Prod.mk.inj hpair
  exact hr

/-- A file that runs in the browser and imports a module. -/
def importingFile (specifier : String) : Text :=
  "\"use client\";\nimport path from ".toList ++ '\"' :: (specifier.toList ++ '\"' :: ";\n".toList)

/-- A module of the table is reported with the mark, too. -/
theorem serverImport_marked_path :
    ReportsImport .standard "a.tsx" (importingFile "path") ⟨"path".toList, 32⟩ ∧
      ReportsImport .standard "a.tsx" (importingFile "node:path") ⟨"node:path".toList, 32⟩ := by
  have hplain : ReportsImport .standard "a.tsx" (importingFile "path") ⟨"path".toList, 32⟩ :=
    reportsImport_iff.mpr ⟨mem_imports_of_map (by decide +kernel), by decide +kernel, by decide +kernel⟩
  have hquotes : Quotes (importingFile "path") ⟨"path".toList, 32⟩ "\"use client\";\nimport path from ".toList '\"' '\"'
      ";\n".toList := ⟨⟨rfl, rfl, by decide, by decide⟩, rfl, by decide +kernel⟩
  obtain ⟨-, -, hclient, hreports⟩ := (serverImport_marked hplain).2 _ _ _ _ hquotes
  exact ⟨hplain, hreports.mpr ⟨hclient (by decide), "path", by decide, Or.inl rfl⟩⟩

/-- A part of a module of the table is reported without the mark only. -/
theorem serverImport_misses_part :
    ReportsImport .standard "a.tsx" (importingFile "path/posix") ⟨"path/posix".toList, 32⟩ ∧
      ⟨"node:path/posix".toList, 32⟩ ∈ imports (importingFile "node:path/posix") ∧
      isClientFile (importingFile "node:path/posix") = true ∧
      ¬ ReportsImport .standard "a.tsx" (importingFile "node:path/posix") ⟨"node:path/posix".toList, 32⟩ := by
  refine ⟨reportsImport_iff.mpr ⟨mem_imports_of_map (by decide +kernel), by decide +kernel, by decide +kernel⟩,
    mem_imports_of_map (by decide +kernel), by decide +kernel, ?_⟩
  rw [reportsImport_iff]
  rintro ⟨-, -, hserver⟩
  exact absurd hserver (by decide +kernel)

end Checkup
