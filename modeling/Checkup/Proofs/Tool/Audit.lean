import Checkup.Proofs.Json.Pretty
import Checkup.Proofs.Json.Value
import Checkup.Proofs.Ranked
import Checkup.Proofs.Tool.Output
import Checkup.Tool.Audit

/-!
# Both shapes of an audit say the same

Packages with their advisories are listed in the shape of bun or in that of npm (`AuditShape.tree`), printed in any way
and with other text around the object. In each shape the audit finds what there is to find in the packages
(`vulnerabilitiesOf_shapes`).

* `Lists`: entries of a tree list the advisories of packages.
* `advisoriesOf`: the advisories of packages, in the order of the packages. They are found in the value of both shapes
  (`advisories_shape`).
-/

namespace Checkup

open Json (Increasing Laid Tree)

variable {vs : List Json} {packages read : List (String × List Json)}
  {entries : List (String × List Tree)}

/-- The shapes in which advisories are listed by package. -/
inductive AuditShape where
  | bun
  | npm

namespace AuditShape

/-- The entry of a package, from what its list has. -/
def entry (items : List Tree) : AuditShape → Tree
  | bun => .array items
  | npm => .object [(some "via", .array items)]

/-- The members of the root, from those of the packages. -/
def root (members : List (Option String × Tree)) : AuditShape → List (Option String × Tree)
  | bun => members
  | npm => [(some "vulnerabilities", .object members)]

/-- The object that lists the entries. -/
def tree (shape : AuditShape) (entries : List (String × List Tree)) : Tree :=
  .object (shape.root (entries.map fun e => (some e.1, shape.entry e.2)))

/-- How many arrays and objects are around an advisory. -/
def around : AuditShape → Nat
  | bun => 2
  | npm => 4

/-- How deep an advisory may be nested. -/
def depth (shape : AuditShape) : Nat := Tree.maxDepth - shape.around

/-- The value of the entry of a package. -/
def entryValue (items : List Json) : AuditShape → Json
  | bun => .array items
  | npm => .object [("via", .array items)]

/-- The members of the value of the root. -/
def rootValue (members : List (String × Json)) : AuditShape → List (String × Json)
  | bun => members
  | npm => [("vulnerabilities", .object members)]

end AuditShape

/-- Whether the list has the values as its items. -/
abbrev Reads (depth : Nat) (items : List Tree) (vs : List Json) : Prop :=
  List.Forall₂ (fun t v => t.valueIn depth = some v) items vs

/-- Without the strings. -/
def withoutStrings (vs : List Json) : List Json := vs.filter fun v => v.string?.isNone

/-- Whether the entries list the packages with their advisories, in any order of the packages and with any strings
among the advisories. Each item is any tree with the right value that is nested at most `depth` deep. -/
def Lists (depth : Nat) (entries : List (String × List Tree)) (packages : List (String × List Json)) : Prop :=
  ∃ read : List (String × List Json), List.Forall₂ (fun e p => e.1 = p.1 ∧ Reads depth e.2 p.2) entries read ∧
    (read.map fun p => (p.1, withoutStrings p.2)).Perm packages

/-! ## Values of the shapes -/

theorem valueIn_entry {shape : AuditShape} {items : List Tree} (h : Reads shape.depth items vs) :
    (shape.entry items).valueIn (Tree.maxDepth - shape.around / 2) = some (shape.entryValue vs) := by
  cases shape with
  | bun => exact Tree.valueIn_array h
  | npm => exact Tree.valueIn_object_singleton (Tree.valueIn_array h)

/-- The value of a tree that lists packages has the packages in the order of their keys. -/
theorem value_tree {shape : AuditShape} (hpackages : Increasing packages) (h : Lists shape.depth entries packages) :
    ∃ ordered : List (String × List Json), (ordered.map fun p => (p.1, withoutStrings p.2)) = packages ∧
      (shape.tree entries).value =
        some (.object (shape.rootValue (ordered.map fun p => (p.1, shape.entryValue p.2)))) := by
  obtain ⟨read, hread, hperm⟩ := h
  have hkeys : ((([] : List (String × List Json)) ++ read).map Prod.fst).Nodup := by
    have hmap := (hperm.map Prod.fst).nodup_iff.mpr hpackages.nodup
    rwa [List.map_map] at hmap
  -- the packages as they are written, in the order of their keys
  let ordered := read.foldl (fun done p => Tree.insertMember p.1 p.2 done) []
  have hordered : Increasing ordered := Tree.increasing_foldl_insertMember List.Pairwise.nil
  have hsame : read.Perm ordered := (Tree.foldl_insertMember_perm hkeys).symm
  have hmapped : ∀ {β : Type} (f : List Json → β), Increasing (ordered.map fun p => (p.1, f p.2)) := by
    intro β f
    rw [Increasing, List.map_map]
    exact hordered
  refine ⟨ordered, (hmapped _).eq_of_perm hpackages ((hsame.map _).symm.trans hperm), ?_⟩
  have hmembers : List.Forall₂
      (fun w m => w.1 = some m.1 ∧ Tree.valueIn (Tree.maxDepth - shape.around / 2) w.2 = some m.2)
      (entries.map fun e => (some e.1, shape.entry e.2)) (read.map fun p => (p.1, shape.entryValue p.2)) := by
    rw [List.forall₂_map_left_iff, List.forall₂_map_right_iff]
    exact hread.imp fun e p h => ⟨congrArg some h.1, valueIn_entry h.2⟩
  have hobject := Tree.valueIn_object hmembers (hmapped shape.entryValue) (hsame.map _)
  cases shape with
  | bun => exact hobject
  | npm => exact Tree.valueIn_object_singleton hobject

/-! ## Advisories of the packages -/

/-- The advisories about the packages: the objects that have a title, in the order of the packages. -/
def advisoriesOf (packages : List (String × List Json)) : List Vulnerability :=
  packages.flatMap fun p => p.2.filterMap (Vulnerability.ofAdvisory p.1 none)

theorem filterMap_withoutStrings (package : String) (vs : List Json) :
    (withoutStrings vs).filterMap (Vulnerability.ofAdvisory package none) =
      vs.filterMap (Vulnerability.ofAdvisory package none) := by
  rw [withoutStrings, List.filterMap_filter]
  refine List.filterMap_congr fun v _ => ?_
  cases v <;> rfl

theorem filter_isObject_eq (h : ∀ v ∈ withoutStrings vs, v.isObject = true) :
    vs.filter Json.isObject = withoutStrings vs := by
  refine List.filter_congr fun v hv => ?_
  by_cases hstring : v.string?.isNone = true
  · rw [hstring, h v (List.mem_filter.mpr ⟨hv, hstring⟩)]
  · cases v <;> first | rfl | exact absurd rfl hstring

theorem advisoriesIn_array (package : String) (vs : List Json) :
    advisoriesIn package (.array vs) = (withoutStrings vs).filterMap (Vulnerability.ofAdvisory package none) :=
  (filterMap_withoutStrings package vs).symm

theorem advisoriesVia_object (h : ∀ v ∈ withoutStrings vs, v.isObject = true) (package : String) :
    advisoriesVia package (.object [("via", .array vs)]) =
      (withoutStrings vs).filterMap (Vulnerability.ofAdvisory package none) := by
  rw [← filter_isObject_eq h]
  rfl

/-- A member that is a list is no object. -/
theorem get?_array_object? (key : String) (packages : List (String × List Json)) :
    ((Json.object (packages.map fun p => (p.1, .array p.2))).get? key).bind Json.object? = none := by
  rw [Json.get?]
  induction packages with
  | nil => rfl
  | cons p packages ih =>
    rw [List.map_cons, List.lookup_cons]
    split
    · rfl
    · exact ih

/-- In the value of each shape the advisories of the packages are found, whatever the packages are called. -/
theorem advisories_shape (shape : AuditShape) {ordered : List (String × List Json)}
    (h : ∀ p ∈ ordered, ∀ v ∈ withoutStrings p.2, v.isObject = true) :
    advisories (.object (shape.rootValue (ordered.map fun p => (p.1, shape.entryValue p.2)))) =
      advisoriesOf (ordered.map fun p => (p.1, withoutStrings p.2)) := by
  rw [advisoriesOf, List.flatMap_map]
  cases shape with
  | bun =>
    simp only [AuditShape.rootValue, AuditShape.entryValue, advisories, get?_array_object?, Json.object?,
      Option.getD_some, List.flatMap_map, advisoriesIn_array]
  | npm =>
    have hroot : ((Json.object [("vulnerabilities", .object (ordered.map fun p =>
        (p.1, .object [("via", .array p.2)])))]).get? "vulnerabilities").bind Json.object? =
          some (ordered.map fun p => (p.1, .object [("via", .array p.2)])) := by
      rw [Json.get?, List.lookup_cons, beq_self_eq_true]
      rfl
    simp only [AuditShape.rootValue, AuditShape.entryValue, advisories, hroot, List.flatMap_map]
    exact List.flatMap_congr fun p hp => advisoriesVia_object (h p hp) p.1

/-! ## The list -/

theorem VulnerabilitySeverity.rank_injective : Function.Injective VulnerabilitySeverity.rank := by
  intro s t h
  cases s <;> cases t <;> first | rfl | cases h

theorem VulnerabilitySeverity.all_strict : VulnerabilitySeverity.all.Pairwise fun s t => s.rank < t.rank := by decide

/-- The advisories of each step, the worst first. -/
theorem Vulnerability.sort_eq (found : List Vulnerability) :
    Vulnerability.sort found = VulnerabilitySeverity.all.flatMap fun s => found.filter fun v => v.severity == s :=
  (flatMap_filter_step VulnerabilitySeverity.rank Vulnerability.severity VulnerabilitySeverity.rank_injective
    VulnerabilitySeverity.all_strict fun v _ => by cases v.severity <;> decide).symm

/-- The packages, each once for each of its advisories that has a title, and these advisories. -/
def titled (packages : List (String × List Json)) : List (String × Json) :=
  packages.flatMap fun p => (p.2.filter fun v => (v.stringAt? "title").isSome).map fun v => (p.1, v)

/-- Each member that has an image, with its image. -/
theorem forall₂_filterMap {α β : Type} (f : α → Option β) (l : List α) :
    List.Forall₂ (fun a b => f a = some b) (l.filter fun a => (f a).isSome) (l.filterMap f) := by
  induction l with
  | nil => exact .nil
  | cons a l ih =>
    cases ha : f a with
    | none => simpa [ha, List.filterMap_cons] using ih
    | some b => simpa [ha, List.filterMap_cons] using ih

/-- Each advisory with a title is found once, and nothing else is. -/
theorem forall₂_advisoriesOf (packages : List (String × List Json)) :
    List.Forall₂ (fun a v => Vulnerability.ofAdvisory a.1 none a.2 = some v) (titled packages)
      (advisoriesOf packages) := by
  induction packages with
  | nil => exact .nil
  | cons p packages ih =>
    have hlist := forall₂_filterMap (Vulnerability.ofAdvisory p.1 none) p.2
    simp only [Vulnerability.ofAdvisory, Option.isSome_map] at hlist
    exact List.rel_append (List.forall₂_map_left_iff.mpr hlist) ih

/-- **Both shapes say the same.** Of the advisories of the packages, those with a title are found, each once: the worst
first, and those of one step in the order of the packages and then in that of their lists. It makes no difference in
which shape the packages are listed and how that is printed, which strings stand among the advisories, and what stands
around the object as long as no brace leads into it. -/
theorem vulnerabilitiesOf_shapes (hpackages : Increasing packages)
    (hobject : ∀ p ∈ packages, ∀ v ∈ p.2, v.isObject = true) :
    ∃ found, List.Forall₂ (fun a v => Vulnerability.ofAdvisory a.1 none a.2 = some v) (titled packages) found ∧
      ∀ (shape : AuditShape) (entries : List (String × List Tree)) (before object after : Text),
        Lists shape.depth entries packages → Laid (shape.tree entries).tokens object →
        '\x7b' ∉ before → '\x7d' ∉ after →
        vulnerabilitiesOf (String.ofList (before ++ (object ++ after))) =
          .ok (VulnerabilitySeverity.all.flatMap fun s => found.filter fun v => v.severity == s) := by
  refine ⟨advisoriesOf packages, forall₂_advisoriesOf packages, ?_⟩
  intro shape entries before object after hlists hlaid hbefore hafter
  obtain ⟨ordered, hsame, hvalue⟩ := value_tree hpackages hlists
  obtain ⟨t, hcut, hparse⟩ := parse_jsonObject? hlaid hbefore hafter
  have hobjects : ∀ p ∈ ordered, ∀ v ∈ withoutStrings p.2, v.isObject = true :=
    fun p hp => hobject _ (hsame ▸ List.mem_map_of_mem hp)
  have hread : Json.parse t = _ := hparse.trans hvalue
  rw [vulnerabilitiesOf, String.toList_ofList, hcut]
  simp only [hread, advisories_shape shape hobjects, hsame, Vulnerability.sort_eq]

/-- An advisory, in an object with its title. -/
def sampleAdvisory (title severity : String) : Json :=
  .object [("severity", .string severity), ("title", .string title)]

/-- Packages whose names are those of members that tell the shapes apart, one with an object that has no title. -/
def samplePackages : List (String × List Json) :=
  [("advisories", [sampleAdvisory "late" "low", sampleAdvisory "early" "critical"]),
    ("vulnerabilities", [.object [("note", .string "none")], sampleAdvisory "next" "high"])]

/-- The entries of the sample, the last package first and with a string among the advisories. -/
def sampleEntries : List (String × List Json) :=
  [("vulnerabilities", [.object [("note", .string "none")], .string "react", sampleAdvisory "next" "high"]),
    ("advisories", [sampleAdvisory "late" "low", sampleAdvisory "early" "critical"])]

/-- The entries of the sample in a shape. -/
def sampleObject (shape : AuditShape) : Json :=
  .object (shape.rootValue (sampleEntries.map fun p => (p.1, shape.entryValue p.2)))

/-- The trees of the sample have its values. -/
theorem reads_sampleEntries (shape : AuditShape) :
    ∀ p ∈ sampleEntries, Reads shape.depth (p.2.map Tree.ofJson) p.2 := by
  obtain ⟨depth, hdepth⟩ : ∃ depth, shape.depth = depth + 1 := by cases shape <;> exact ⟨_, rfl⟩
  have hnote : (Tree.ofJson (.object [("note", .string "none")])).valueIn (depth + 1) =
      some (.object [("note", .string "none")]) :=
    Tree.valueIn_object_singleton rfl
  have hadvisory (title severity : String) :
      (Tree.ofJson (sampleAdvisory title severity)).valueIn (depth + 1) = some (sampleAdvisory title severity) :=
    Tree.valueIn_object (.cons ⟨rfl, rfl⟩ (.cons ⟨rfl, rfl⟩ .nil))
      (show ["severity", "title"].Pairwise (· < ·) by decide) (.refl _)
  rw [hdepth]
  refine List.forall_mem_cons.mpr ⟨?_, List.forall_mem_singleton.mpr ?_⟩
  · exact .cons hnote (.cons rfl (.cons (hadvisory _ _) .nil))
  · exact .cons (hadvisory _ _) (.cons (hadvisory _ _) .nil)

theorem vulnerabilitiesOf_shapes_sample :
    Increasing samplePackages ∧ (∀ p ∈ samplePackages, ∀ v ∈ p.2, v.isObject = true) ∧
      ∃ found, found.map Vulnerability.title = ["early", "next", "late"] ∧ ∀ shape : AuditShape,
        vulnerabilitiesOf (String.ofList ("npm \x7d warn\n".toList ++
          ((sampleObject shape).pretty ++ "done \x7b".toList))) = .ok found := by
  have hincreasing : Increasing samplePackages := by unfold Increasing; decide
  have hobject : ∀ p ∈ samplePackages, ∀ v ∈ p.2, v.isObject = true := by
    simp [samplePackages, sampleAdvisory, Json.isObject, Json.object?]
  refine ⟨hincreasing, hobject, ?_⟩
  obtain ⟨found, hfound, hshapes⟩ := vulnerabilitiesOf_shapes hincreasing hobject
  refine ⟨VulnerabilitySeverity.all.flatMap fun s => found.filter fun v => v.severity == s, ?_, fun shape => ?_⟩
  · have htitled : titled samplePackages = [("advisories", sampleAdvisory "late" "low"),
        ("advisories", sampleAdvisory "early" "critical"), ("vulnerabilities", sampleAdvisory "next" "high")] := rfl
    rw [htitled] at hfound
    obtain _ | ⟨hlate, _ | ⟨hearly, _ | ⟨hnext, ⟨⟩⟩⟩⟩ := hfound
    obtain rfl := Option.some.inj hlate
    obtain rfl := Option.some.inj hearly
    obtain rfl := Option.some.inj hnext
    decide +kernel
  · refine hshapes shape (sampleEntries.map fun p => (p.1, p.2.map Tree.ofJson)) _ _ _ ?_ ?_ (by decide) (by decide)
    · refine ⟨sampleEntries, ?_, List.Perm.swap _ _ _⟩
      rw [List.forall₂_map_left_iff]
      exact List.forall₂_same.mpr fun p hp => ⟨rfl, reads_sampleEntries shape p hp⟩
    · have hlaid := Json.laid_ofJson (sampleObject shape)
      cases shape <;> exact hlaid

end Checkup
