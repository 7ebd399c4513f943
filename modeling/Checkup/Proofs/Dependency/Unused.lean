import Mathlib.Data.List.Basic
import Checkup.Dependency.Check
import Checkup.Proofs.Json.Member
import Checkup.Proofs.Text.Occurrence

/-!
# Packages that nothing uses

* `rootPackage_of_isPackageName`: a package is the one of the specifiers that are its name, alone or with a path below
  it.
* `Manifest.inKeyOrder_of_parse`: the sections of a manifest are in the order of their keys.
* `declaredIssues_sources`: what more files change in the issues, in which order unused packages are listed, and that an
  imported package is none of them.
-/

namespace Checkup

variable {files files' : List SourceFile} {m : Manifest} {name s t u : Text}

/-! ## The package of a specifier -/

theorem Text.beforeNth_cons_of_ne {sep c : Char} (h : c ≠ sep) (n : Nat) (t : Text) :
    Text.beforeNth sep n (c :: t) = c :: Text.beforeNth sep n t := by
  cases n <;> simp [Text.beforeNth, h]

/-- A text without separators is passed over. -/
theorem Text.beforeNth_append {sep : Char} (h : sep ∉ t) (n : Nat) (u : Text) :
    Text.beforeNth sep n (t ++ u) = t ++ Text.beforeNth sep n u := by
  induction t with
  | nil => rfl
  | cons c t ih =>
    obtain ⟨hc, ht⟩ := List.ne_and_not_mem_of_not_mem_cons h
    rw [List.cons_append, Text.beforeNth_cons_of_ne hc.symm, ih ht, List.cons_append]

/-- The first separator is at the end of the text, or right behind it. -/
theorem Text.beforeNth_tail {sep : Char} (h : sep ∉ t) (hu : ∀ x ∈ u.head?, x = sep) :
    Text.beforeNth sep 0 (t ++ u) = t := by
  rw [Text.beforeNth_append h]
  cases u with
  | nil => exact List.append_nil t
  | cons x u => rw [hu x rfl, Text.beforeNth, if_pos rfl, List.append_nil]

/-- Behind a separator there is one separator less to come. -/
theorem Text.beforeNth_succ {sep : Char} (h : sep ∉ t) (n : Nat) (u : Text) :
    Text.beforeNth sep (n + 1) (t ++ sep :: u) = t ++ sep :: Text.beforeNth sep n u := by
  rw [Text.beforeNth_append h, Text.beforeNth, if_pos rfl]

/-- A lead without the separator ends in front of it. -/
theorem Text.prefix_of_prefix_append {sep : Char} {lead : Text} (hlead : sep ∉ lead) (hu : ∀ x ∈ u.head?, x = sep)
    (h : lead <+: t ++ u) : lead <+: t := by
  rcases List.prefix_or_prefix_of_prefix h (List.prefix_append t u) with h' | ⟨v, rfl⟩
  · exact h'
  · rw [List.prefix_append_right_inj] at h
    cases v with
    | nil => exact (List.append_nil t).symm ▸ List.prefix_refl t
    | cons x v =>
      have hx : x ∈ u.head? := by
        obtain ⟨w, rfl⟩ := h
        rfl
      exact absurd (List.mem_append_right t List.mem_cons_self) (hu x hx ▸ hlead)

/-- The names that packages have: a name of one part that starts like no local specifier and no builtin module, or a
name of two parts of which the first is a scope. Neither names nor scopes are empty. -/
inductive IsPackageName : Text → Prop
  | plain {c : Char} {t : Text} : '/' ∉ c :: t → c ∉ ['.', '#', '~', '@'] → ¬ "node:".toList <+: c :: t →
      IsPackageName (c :: t)
  | inScope {c : Char} {scope base : Text} : '/' ∉ c :: scope → '/' ∉ base →
      IsPackageName ('@' :: c :: (scope ++ '/' :: base))

/-- Whether the specifier is the name, alone or with a path below it. -/
def IsBelow (name specifier : Text) : Prop := specifier = name ∨ ∃ path, specifier = name ++ '/' :: path

theorem localLeads_eq_false (h : ∀ lead ∈ localLeads, ¬ lead.toList <+: t) :
    (localLeads.any fun lead => Text.startsWith lead.toList t) = false :=
  List.any_eq_false.mpr fun lead hlead hstarts => h lead hlead (List.isPrefixOf_iff_prefix.mp hstarts)

/-- Behind the name there is nothing, or a slash. -/
theorem IsBelow.exists_tail (h : IsBelow name s) : ∃ tail, s = name ++ tail ∧ ∀ x ∈ tail.head?, x = '/' := by
  rcases h with rfl | ⟨path, rfl⟩
  · exact ⟨[], (List.append_nil _).symm, by simp⟩
  · exact ⟨'/' :: path, rfl, by simp⟩

/-- **A package is the one of its name and of the paths below it.** -/
theorem rootPackage_of_isPackageName (hname : IsPackageName name) (hs : IsBelow name s) :
    rootPackage s = some name := by
  obtain ⟨tail, rfl, htail⟩ := hs.exists_tail
  cases hname with
  | @plain c t hslash hc hnode =>
    have hslash' : c ≠ '/' := fun e => hslash (e ▸ List.mem_cons_self)
    have hat : c ≠ '@' := fun e => hc (by simp [e])
    have hcut : Text.beforeNth '/' 0 (c :: t ++ tail) = c :: t := Text.beforeNth_tail hslash htail
    have hbelow : ¬ "node:".toList <+: c :: t ++ tail :=
      fun h => hnode (Text.prefix_of_prefix_append (by decide) htail h)
    have hlead : ∀ lead ∈ localLeads, ¬ lead.toList <+: c :: t ++ tail := by
      rw [List.cons_append] at hbelow ⊢
      simp only [List.mem_cons, List.not_mem_nil, not_or, or_false] at hc
      simpa [localLeads, List.cons_prefix_cons, hslash'.symm, Ne.symm hc.1, Ne.symm hc.2.1, Ne.symm hc.2.2.1, hat.symm]
        using hbelow
    rw [rootPackage, localLeads_eq_false hlead, hcut]
    simp [hat]
  | @inScope c scope base hscope hbase =>
    have hslash' : c ≠ '/' := fun e => hscope (e ▸ List.mem_cons_self)
    have hscope' : '/' ∉ '@' :: c :: scope := by simp_all
    have hcut : Text.beforeNth '/' 1 ('@' :: c :: (scope ++ '/' :: base) ++ tail) =
        '@' :: c :: (scope ++ '/' :: base) := by
      have hsucc := Text.beforeNth_succ hscope' 0 (base ++ tail)
      rw [Text.beforeNth_tail hbase htail] at hsucc
      simpa using hsucc
    have hlead : ∀ lead ∈ localLeads, ¬ lead.toList <+: '@' :: c :: (scope ++ '/' :: base) ++ tail := by
      simp [localLeads, List.cons_prefix_cons, hslash'.symm]
    have hmem : ('@' :: c :: (scope ++ '/' :: base) ++ tail).contains '/' = true := List.contains_iff_mem.mpr (by simp)
    rw [rootPackage, localLeads_eq_false hlead, hcut, hmem]
    rfl

/-! ## Sections of a manifest -/

/-- Whether the sections are in the order of their keys. -/
structure Manifest.InKeyOrder (m : Manifest) : Prop where
  dependencies : Json.Increasing m.dependencies
  devDependencies : Json.Increasing m.devDependencies
  scripts : Json.Increasing m.scripts

/-- The manifests that there are have their sections in the order of the keys. -/
theorem Manifest.inKeyOrder_of_parse (h : Manifest.parse t = some m) : m.InKeyOrder := by
  obtain ⟨v, -, hv⟩ := Option.bind_eq_some_iff.mp h
  simp only [ofTree, bind, pure, Option.bind_eq_some_iff, Option.some.injEq] at hv
  obtain ⟨r, -, n, -, deps, hdeps, dev, hdev, scripts, hscripts, rfl⟩ := hv
  have hsection {field : String} {ms : List (String × String)}
      (h : r.orElse field [] (Json.Tree.dictionary? Json.Tree.string?) = some ms) : Json.Increasing ms := by
    unfold Json.Record.orElse at h
    split at h
    · obtain rfl := Option.some.inj h
      exact List.Pairwise.nil
    · exact Json.Tree.increasing_of_dictionary? h
  exact ⟨hsection hdeps, hsection hdev, hsection hscripts⟩

/-! ## Unused packages -/

/-- Whether the issue is about an unused package. -/
def DependencyIssue.isUnused (i : DependencyIssue) : Bool := i.kind = .unused

/-- Whether some file imports the package or something below it. -/
def ImportedBy (files : List SourceFile) (name : String) : Prop :=
  ∃ f ∈ files, ∃ r ∈ imports f.content, IsBelow name.toList r.specifier

theorem mem_importedPackages :
    name ∈ importedPackages files ↔ ∃ f ∈ files, ∃ r ∈ imports f.content, rootPackage r.specifier = some name := by
  simp [importedPackages]

/-- More files import no fewer packages. -/
theorem importedPackages_subset (h : files ⊆ files') : importedPackages files ⊆ importedPackages files' := by
  intro package hpackage
  obtain ⟨f, hf, hr⟩ := mem_importedPackages.mp hpackage
  exact mem_importedPackages.mpr ⟨f, h hf, hr⟩

theorem isUsed_mono {imported imported' : List Text} (h : imported ⊆ imported') {package : String}
    (hused : isUsed m imported package = true) : isUsed m imported' package = true := by
  simp only [isUsed, Bool.or_eq_true, List.contains_iff_mem] at hused ⊢
  exact hused.imp_left fun hused => hused.imp_left fun hmem => h hmem

/-- The names of a section that nothing uses. -/
def unusedNames (m : Manifest) (files : List SourceFile) (packages : List (String × String)) : List String :=
  (packages.map Prod.fst).filter fun name => !isUsed m (importedPackages files) name

theorem unusedIssues_eq (m : Manifest) (files : List SourceFile) : unusedIssues m files =
    (unusedNames m files m.dependencies).map (unusedIssue "dependency" .performance) ++
      (unusedNames m files m.devDependencies).map (unusedIssue "devDependency" .bestPractice) := rfl

/-- More files leave no more names of a section unused. -/
theorem unusedNames_sublist (h : files ⊆ files') (packages : List (String × String)) :
    (unusedNames m files' packages).Sublist (unusedNames m files packages) := by
  refine List.monotone_filter_right _ fun package hunused => ?_
  rw [Bool.not_eq_true'] at hunused ⊢
  rw [← Bool.not_eq_true] at hunused ⊢
  exact fun hused => hunused (isUsed_mono (importedPackages_subset h) hused)

theorem unusedIssues_sublist (h : files ⊆ files') : (unusedIssues m files').Sublist (unusedIssues m files) := by
  rw [unusedIssues_eq, unusedIssues_eq]
  exact ((unusedNames_sublist h _).map _).append ((unusedNames_sublist h _).map _)

/-- A name that is imported is no unused one. -/
theorem not_mem_unusedNames {package : String} (hname : IsPackageName package.toList) (h : ImportedBy files package)
    (packages : List (String × String)) : package ∉ unusedNames m files packages := by
  obtain ⟨f, hf, r, hr, hbelow⟩ := h
  have hmem : package.toList ∈ importedPackages files :=
    mem_importedPackages.mpr ⟨f, hf, r, hr, rootPackage_of_isPackageName hname hbelow⟩
  intro hunused
  have hused : isUsed m (importedPackages files) package = true := by simp [isUsed, hmem]
  simpa [hused] using (List.mem_filter.mp hunused).2

/-! ## All issues -/

theorem isUnused_of_mem_unusedIssues {i : DependencyIssue} (h : i ∈ unusedIssues m files) : i.isUnused = true := by
  rw [unusedIssues_eq, List.mem_append, List.mem_map, List.mem_map] at h
  rcases h with ⟨_, _, rfl⟩ | ⟨_, _, rfl⟩ <;> rfl

theorem not_isUnused_of_mem {i : DependencyIssue} (h : i ∈ (mismatchIssue m).toList ++ misplacedIssues m) :
    i.isUnused = false := by
  rcases List.mem_append.mp h with h | h
  · simp only [mismatchIssue, Option.mem_toList, bind, Option.bind_eq_some_iff] at h
    obtain ⟨react, -, reactDom, -, h⟩ := h
    split at h
    · cases h
    · obtain rfl := Option.some.inj h
      rfl
  · obtain ⟨package, -, rfl⟩ := List.mem_map.mp h
    rfl

/-- The issues about unused packages come last. -/
theorem filter_declaredIssues (m : Manifest) (files : List SourceFile) :
    (declaredIssues m files).filter DependencyIssue.isUnused = unusedIssues m files ∧
      ((declaredIssues m files).filter fun i => !i.isUnused) = (mismatchIssue m).toList ++ misplacedIssues m := by
  have hunused : ∀ i ∈ unusedIssues m files, i.isUnused = true := fun i => isUnused_of_mem_unusedIssues
  have hother : ∀ i ∈ (mismatchIssue m).toList ++ misplacedIssues m, i.isUnused = false := fun i => not_isUnused_of_mem
  have hnone : ((mismatchIssue m).toList ++ misplacedIssues m).filter DependencyIssue.isUnused = [] :=
    List.filter_eq_nil_iff.mpr fun i hi => by simp [hother i hi]
  have hnone' : ((unusedIssues m files).filter fun i => !i.isUnused) = [] :=
    List.filter_eq_nil_iff.mpr fun i hi => by simp [hunused i hi]
  constructor
  · rw [declaredIssues, List.filter_append, hnone, List.nil_append]
    exact List.filter_eq_self.mpr hunused
  · rw [declaredIssues, List.filter_append, hnone', List.append_nil]
    exact List.filter_eq_self.mpr fun i hi => by simp [hother i hi]

/-- What the issues about unused packages list: names of the production section and then names of the development
section, each name once and in the order of the bytes. -/
def ListsSections (m : Manifest) (issues : List DependencyIssue) : Prop :=
  ∃ production development : List String,
    issues = production.map (unusedIssue "dependency" .performance) ++
      development.map (unusedIssue "devDependency" .bestPractice) ∧
    production.Sublist (m.dependencies.map Prod.fst) ∧ development.Sublist (m.devDependencies.map Prod.fst) ∧
    (production.Pairwise fun a b => a.toByteArray.data.toList < b.toByteArray.data.toList) ∧
    development.Pairwise fun a b => a.toByteArray.data.toList < b.toByteArray.data.toList

theorem listsSections_unusedIssues (hm : m.InKeyOrder) (files : List SourceFile) :
    ListsSections m (unusedIssues m files) := by
  refine ⟨_, _, unusedIssues_eq m files, List.filter_sublist, List.filter_sublist, ?_, ?_⟩
  · exact hm.dependencies.bytewise.sublist List.filter_sublist
  · exact hm.devDependencies.bytewise.sublist List.filter_sublist

/-- **Issues about declared packages.** With more files no more packages are unused, and nothing else changes. Unused
packages come section by section, each name once and in the order of the keys. A package that a file imports, or of
which it imports something, is none of them. -/
theorem declaredIssues_sources (hm : m.InKeyOrder) (h : files ⊆ files') :
    ((declaredIssues m files').filter DependencyIssue.isUnused).Sublist
        ((declaredIssues m files).filter DependencyIssue.isUnused) ∧
      ((declaredIssues m files').filter fun i => !i.isUnused) = (declaredIssues m files).filter (fun i => !i.isUnused) ∧
      ListsSections m ((declaredIssues m files).filter DependencyIssue.isUnused) ∧
      ∀ name : String, IsPackageName name.toList → ImportedBy files name →
        ∀ i ∈ (declaredIssues m files).filter DependencyIssue.isUnused, i.package ≠ some name := by
  obtain ⟨hunused, hother⟩ := filter_declaredIssues m files
  obtain ⟨hunused', hother'⟩ := filter_declaredIssues m files'
  rw [hunused, hother, hunused', hother']
  refine ⟨unusedIssues_sublist h, rfl, listsSections_unusedIssues hm files,
    fun name hname himported i hi hpackage => ?_⟩
  rw [unusedIssues_eq, List.mem_append, List.mem_map, List.mem_map] at hi
  rcases hi with ⟨package, hmem, rfl⟩ | ⟨package, hmem, rfl⟩ <;> obtain rfl := Option.some.inj hpackage
  · exact not_mem_unusedNames hname himported _ hmem
  · exact not_mem_unusedNames hname himported _ hmem

/-- One package in both sections, one with a scope, and one of which a file imports a part. -/
theorem declaredIssues_sources_lodash :
    let m : Manifest := ⟨none, [("@scope/ui", "1.0.0"), ("left-pad", "1.3.0"), ("lodash", "4.17.21")],
      [("left-pad", "1.3.0"), ("rimraf", "5.0.0")], [("clean", "rimraf dist")]⟩
    let files : List SourceFile := [⟨"a.ts", "import map from 'lodash/fp';".toList⟩]
    let files' : List SourceFile := files ++ [⟨"b.ts", "export * from '@scope/ui';".toList⟩]
    m.InKeyOrder ∧ files ⊆ files' ∧ IsPackageName "lodash".toList ∧ ImportedBy files "lodash" ∧
      (∀ i ∈ (declaredIssues m files).filter DependencyIssue.isUnused, i.package ≠ some "lodash") ∧
      (declaredIssues m files).map DependencyIssue.package = [some "@scope/ui", some "left-pad", some "left-pad"] ∧
      (declaredIssues m files').map DependencyIssue.package = [some "left-pad", some "left-pad"] := by
  intro m files files'
  have hm : m.InKeyOrder := by constructor <;> (unfold Json.Increasing; decide)
  have hfiles : files ⊆ files' := List.subset_append_left _ _
  have hname : IsPackageName "lodash".toList := .plain (by decide) (by decide) (by decide)
  have himported : ImportedBy files "lodash" :=
    ⟨_, List.mem_cons_self, ⟨"lodash/fp".toList, 17⟩, List.mem_of_getElem? (i := 0) rfl, Or.inr ⟨"fp".toList, rfl⟩⟩
  exact ⟨hm, hfiles, hname, himported, (declaredIssues_sources hm hfiles).2.2.2 "lodash" hname himported,
    by decide +kernel, by decide +kernel⟩

end Checkup
