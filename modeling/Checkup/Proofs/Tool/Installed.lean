import Mathlib.Logic.Relation
import Checkup.Proofs.Json.Pretty
import Checkup.Proofs.Json.Value
import Checkup.Proofs.Text.ByteOrder
import Checkup.Proofs.Tool.Output
import Checkup.Tool.Installed

/-!
# The versions of React that are installed

In the listing of installed packages the versions of all nodes named `react` are found, however deep these are and
whatever packages they are below (`installedReactVersions_reached`).

* `Json.Holds`, `Json.Reaches`: the packages that a node lists, and the nodes that they lead to.
* `mem_reactVersions`: what a package that a node lists adds; `mem_reactVersions_iff`: all that is found below a node.
* `mem_sortedDistinct`, `pairwise_sortedDistinct`: the versions come in their order, each once.
-/

namespace Checkup

open Json (Laid Tree)

variable {name v s : String} {root node : Json} {ss : List String}

/-! ## Nodes -/

/-- Whether a node lists another one, under a name, among the packages that it depends on. -/
def Json.Holds (parent : Json) (name : String) (node : Json) : Prop :=
  ∃ packages, parent.get? "dependencies" = some (.object packages) ∧ (name, node) ∈ packages

/-- Whether packages lead from a node to another one, none or more of them. -/
def Json.Reaches : Json → Json → Prop := Relation.ReflTransGen fun parent node => ∃ name, parent.Holds name node

/-- Whether the node has the version. -/
def Json.HasVersion (node : Json) (v : String) : Prop := node.get? "version" = some (.string v)

theorem mem_nodeVersion : v ∈ nodeVersion node ↔ node.HasVersion v := by
  rw [nodeVersion, Option.mem_toList, Option.bind_eq_some_iff, Json.HasVersion]
  constructor
  · rintro ⟨version, hversion, hstring⟩
    cases version with
    | string s => rwa [Option.some.inj hstring] at hversion
    | _ => cases hstring
  · exact fun h => ⟨_, h, rfl⟩

/-! ## The search below a node -/

theorem versionsInPackages_eq (packages : List (String × Json)) :
    versionsInPackages packages =
      packages.flatMap fun p => (if p.1 = "react" then nodeVersion p.2 else []) ++ reactVersions p.2 := by
  induction packages with
  | nil => rw [versionsInPackages, List.flatMap_nil]
  | cons p packages ih =>
    obtain ⟨name, node⟩ := p
    rw [versionsInPackages, ih, List.flatMap_cons]

/-- The packages of a node are those of the first member with the name, if it is an object. -/
theorem versionsInMembers_eq (members : List (String × Json)) :
    versionsInMembers members =
      match members.lookup "dependencies" with
      | some (.object packages) => versionsInPackages packages
      | _ => [] := by
  induction members with
  | nil => rw [versionsInMembers, List.lookup_nil]
  | cons m members ih =>
    obtain ⟨key, value⟩ := m
    rw [List.lookup_cons]
    by_cases hkey : key = "dependencies"
    · subst hkey
      rw [beq_self_eq_true]
      cases value <;> simp [versionsInMembers]
    · rw [beq_false_of_ne (Ne.symm hkey)]
      cases value <;> simp [versionsInMembers, hkey, ih]

/-- What is found below a node comes from a package that it lists: its version, or what is found below it. -/
theorem mem_reactVersions : v ∈ reactVersions root ↔
    ∃ name node, root.Holds name node ∧ (name = "react" ∧ node.HasVersion v ∨ v ∈ reactVersions node) := by
  have hpackages (packages : List (String × Json)) : v ∈ versionsInPackages packages ↔
      ∃ name node, (name, node) ∈ packages ∧ (name = "react" ∧ node.HasVersion v ∨ v ∈ reactVersions node) := by
    rw [versionsInPackages_eq, List.mem_flatMap, Prod.exists]
    refine exists_congr fun name => exists_congr fun node => and_congr_right fun _ => ?_
    rw [List.mem_append]
    refine or_congr_left ?_
    split
    · rename_i hname
      rw [mem_nodeVersion, and_iff_right hname]
    · rename_i hname
      exact ⟨nofun, fun h => absurd h.1 hname⟩
  cases root with
  | object members =>
    rw [reactVersions, versionsInMembers_eq]
    simp only [Json.Holds, Json.get?]
    cases members.lookup "dependencies" with
    | none => simp
    | some value =>
      cases value with
      | object packages => simp [hpackages]
      | _ => simp
  | _ => simp [reactVersions, Json.Holds, Json.get?]

theorem sizeOf_lt_of_holds (h : root.Holds name node) : sizeOf node < sizeOf root := by
  obtain ⟨packages, hget, hmem⟩ := h
  cases root with
  | object members =>
    obtain ⟨l, l', rfl, -⟩ := List.lookup_eq_some_iff.mp hget
    have hmember : ("dependencies", Json.object packages) ∈ l ++ ("dependencies", Json.object packages) :: l' := by simp
    have hinner := List.sizeOf_lt_of_mem hmem
    have houter := List.sizeOf_lt_of_mem hmember
    simp only [Prod.mk.sizeOf_spec, Json.object.sizeOf_spec] at hinner houter ⊢
    omega
  | _ => cases hget

/-- The recursion is on the size of the node, since the packages that it lists are smaller. -/
theorem exists_of_mem_reactVersions (root : Json) (h : v ∈ reactVersions root) :
    ∃ parent node, root.Reaches parent ∧ parent.Holds "react" node ∧ node.HasVersion v := by
  obtain ⟨name, child, hholds, ⟨rfl, hversion⟩ | hbelow⟩ := mem_reactVersions.mp h
  · exact ⟨root, child, .refl, hholds, hversion⟩
  · have hsmaller := sizeOf_lt_of_holds hholds
    obtain ⟨parent, node, hreaches, hreact, hversion⟩ := exists_of_mem_reactVersions child hbelow
    exact ⟨parent, node, .head ⟨name, hholds⟩ hreaches, hreact, hversion⟩
termination_by sizeOf root

/-- Just the versions of the nodes named `react` are found. -/
theorem mem_reactVersions_iff :
    v ∈ reactVersions root ↔ ∃ parent node, root.Reaches parent ∧ parent.Holds "react" node ∧ node.HasVersion v := by
  refine ⟨exists_of_mem_reactVersions root, ?_⟩
  rintro ⟨parent, node, hreaches, hreact, hversion⟩
  induction hreaches using Relation.ReflTransGen.head_induction_on with
  | refl => exact mem_reactVersions.mpr ⟨_, node, hreact, Or.inl ⟨rfl, hversion⟩⟩
  | head hchild _ ih =>
    obtain ⟨name, hholds⟩ := hchild
    exact mem_reactVersions.mpr ⟨name, _, hholds, Or.inr ih⟩

/-! ## The list of versions -/

theorem mem_insertSorted : v ∈ insertSorted s ss ↔ v = s ∨ v ∈ ss := by
  fun_induction insertSorted s ss with
  | case1 => simp
  | case2 => simp
  | case3 => simp
  | case4 s' rest hlt hne ih => rw [List.mem_cons, ih, List.mem_cons, or_left_comm]

theorem pairwise_insertSorted (h : ss.Pairwise (· < ·)) : (insertSorted s ss).Pairwise (· < ·) := by
  fun_induction insertSorted s ss with
  | case1 => exact List.pairwise_singleton _ s
  | case2 s' rest hlt =>
    refine List.pairwise_cons.mpr ⟨List.forall_mem_cons.mpr ⟨hlt, fun x hx => ?_⟩, h⟩
    exact String.lt_trans hlt ((List.pairwise_cons.mp h).1 x hx)
  | case3 rest hlt => exact h
  | case4 s' rest hlt hne ih =>
    obtain ⟨hhead, hrest⟩ := List.pairwise_cons.mp h
    refine List.pairwise_cons.mpr ⟨fun x hx => ?_, ih hrest⟩
    rcases mem_insertSorted.mp hx with rfl | hx
    · exact Std.lt_of_le_of_ne (String.not_lt.mp hlt) fun e => hne e.symm
    · exact hhead x hx

theorem mem_sortedDistinct : v ∈ sortedDistinct ss ↔ v ∈ ss := by
  have hfold (done : List String) : v ∈ ss.foldl (fun done s => insertSorted s done) done ↔ v ∈ done ∨ v ∈ ss := by
    induction ss generalizing done with
    | nil => simp
    | cons s ss ih => rw [List.foldl_cons, ih, mem_insertSorted, List.mem_cons, or_assoc, or_left_comm]
  rw [sortedDistinct, hfold]
  simp

theorem pairwise_sortedDistinct (ss : List String) : (sortedDistinct ss).Pairwise (· < ·) := by
  have hfold {done : List String} (h : done.Pairwise (· < ·)) :
      (ss.foldl (fun done s => insertSorted s done) done).Pairwise (· < ·) := by
    induction ss generalizing done with
    | nil => exact h
    | cons s ss ih => exact ih (pairwise_insertSorted h)
  exact hfold .nil

/-- **Installed versions.** Take an object that is not nested too deep, printed in any way and with any text around it
as long as no brace leads into it. It has a value, and what is found are the versions of the nodes named `react` that
packages lead to from that value, at any depth: each version once, in the order of the bytes. -/
theorem installedReactVersions_reached {members : List (Option String × Tree)} {before object after : Text}
    (hreadable : (Tree.object members).IsReadable Tree.maxDepth) (hlaid : Laid (Tree.object members).tokens object)
    (hbefore : '\x7b' ∉ before) (hafter : '\x7d' ∉ after) :
    ∃ root versions, (Tree.object members).value = some root ∧
      installedReactVersions (String.ofList (before ++ (object ++ after))) = .ok versions ∧
      (versions.Pairwise fun a b => a.toByteArray.data.toList < b.toByteArray.data.toList) ∧
      ∀ v, v ∈ versions ↔ ∃ parent node, root.Reaches parent ∧ parent.Holds "react" node ∧ node.HasVersion v := by
  obtain ⟨root, hroot⟩ := hreadable.exists_value
  obtain ⟨t, hcut, hparse⟩ := parse_jsonObject? hlaid hbefore hafter
  rw [hroot] at hparse
  refine ⟨root, sortedDistinct (reactVersions root), hroot, ?_, ?_, fun v => ?_⟩
  · rw [installedReactVersions, String.toList_ofList, hcut]
    simp only [hparse]
  · exact (pairwise_sortedDistinct _).imp Text.bytes_lt_iff.mpr
  · rw [mem_sortedDistinct, mem_reactVersions_iff]

/-- A node of the listing with a version. -/
def sampleNode (version : String) : Json := .object [("version", .string version)]

/-- A package that brings its own copy of React. -/
def sampleWidget : Json := .object [("dependencies", .object [("react", sampleNode "17.0.2")])]

/-- A listing with a copy of React below a package. -/
def sampleListing : Json :=
  .object [("dependencies", .object [("old-widget", sampleWidget), ("react", sampleNode "18.2.0")])]

theorem isReadable_object {depth : Nat} {members : List (String × Json)}
    (h : ∀ m ∈ members, (Tree.ofJson m.2).IsReadable depth) :
    (Tree.ofJson (.object members)).IsReadable (depth + 1) := by
  rw [Tree.ofJson, Tree.membersOfJson_eq]
  exact .object (List.forall_mem_map.mpr fun _ _ => rfl) (List.forall_mem_map.mpr h)

theorem installedReactVersions_reached_widget :
    (Tree.ofJson sampleListing).IsReadable Tree.maxDepth ∧ sampleListing.Reaches sampleWidget ∧
      ∃ versions, installedReactVersions (String.ofList ("npm \x7d warn\n".toList ++
        (sampleListing.pretty ++ "done \x7b".toList))) = .ok versions ∧ "17.0.2" ∈ versions ∧ "18.2.0" ∈ versions := by
  have hnode (depth : Nat) (version : String) : (Tree.ofJson (sampleNode version)).IsReadable (depth + 1) :=
    isReadable_object (List.forall_mem_singleton.mpr (.string version))
  have hwidget : (Tree.ofJson sampleWidget).IsReadable 125 :=
    isReadable_object (List.forall_mem_singleton.mpr (isReadable_object (List.forall_mem_singleton.mpr (hnode 122 _))))
  have hreadable : (Tree.ofJson sampleListing).IsReadable Tree.maxDepth :=
    isReadable_object (List.forall_mem_singleton.mpr (isReadable_object
      (List.forall_mem_cons.mpr ⟨hwidget, List.forall_mem_singleton.mpr (hnode 124 _)⟩)))
  have hreaches : sampleListing.Reaches sampleWidget :=
    .single ⟨"old-widget", _, rfl, List.mem_cons_self⟩
  have hbefore : '\x7b' ∉ "npm \x7d warn\n".toList := by decide
  have hafter : '\x7d' ∉ "done \x7b".toList := by decide
  obtain ⟨root, versions, hroot, hversions, -, hmem⟩ :=
    installedReactVersions_reached hreadable (Json.laid_ofJson sampleListing) hbefore hafter
  obtain rfl : sampleListing = root := Option.some.inj (Eq.trans (by rfl) hroot)
  refine ⟨hreadable, hreaches, versions, hversions, ?_, ?_⟩
  · exact (hmem _).mpr ⟨_, sampleNode "17.0.2", hreaches, ⟨_, rfl, List.mem_singleton_self _⟩, rfl⟩
  · exact (hmem _).mpr ⟨_, sampleNode "18.2.0", .refl, ⟨_, rfl, List.mem_cons_of_mem _ (List.mem_singleton_self _)⟩,
      rfl⟩

end Checkup
