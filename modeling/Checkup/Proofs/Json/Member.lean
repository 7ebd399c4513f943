import Mathlib.Data.List.Perm.Basic
import Checkup.Json.Record
import Checkup.Proofs.Text.ByteOrder

/-!
# Members in the order of their keys

`Tree.insertMember` puts a member where its key belongs, in place of the member that has this key.

* `increasing_insertMember`: the keys stay in increasing order, so dictionaries have their keys in that order
  (`increasing_of_dictionary?`).
* `foldl_insertMember_eq`: members with different keys, put into an empty list one after the other, are the same members
  in the order of their keys.
-/

namespace Checkup.Json

variable {α : Type} {k : String} {v : α} {m : String × α} {ms done : List (String × α)}

/-- Whether the keys are in increasing order, which is that of their bytes (`Text.bytes_lt_iff`). -/
def Increasing (ms : List (String × α)) : Prop := (ms.map Prod.fst).Pairwise (· < ·)

theorem increasing_cons : Increasing (m :: ms) ↔ (∀ n ∈ ms, m.1 < n.1) ∧ Increasing ms := by
  simp [Increasing]

theorem Increasing.pairwise (h : Increasing ms) : ms.Pairwise fun a b => a.1 < b.1 := List.pairwise_map.mp h

/-- It is the order of the bytes of the keys. -/
theorem Increasing.bytewise (h : Increasing ms) :
    (ms.map Prod.fst).Pairwise fun a b => a.toByteArray.data.toList < b.toByteArray.data.toList :=
  List.Pairwise.imp Text.bytes_lt_iff.mpr h

namespace Tree

theorem mem_of_mem_insertMember (h : m ∈ insertMember k v ms) : m = (k, v) ∨ m ∈ ms := by
  fun_induction insertMember k v ms with
  | case1 => exact Or.inl (List.mem_singleton.mp h)
  | case2 k' v' more hlt => exact List.mem_cons.mp h
  | case3 v' more hlt => exact (List.mem_cons.mp h).imp_right (List.mem_cons_of_mem _)
  | case4 k' v' more hlt hne ih =>
    rcases List.mem_cons.mp h with rfl | h
    · exact Or.inr List.mem_cons_self
    · exact (ih h).imp_right (List.mem_cons_of_mem _)

theorem increasing_insertMember (h : Increasing ms) : Increasing (insertMember k v ms) := by
  fun_induction insertMember k v ms with
  | case1 => simp [Increasing]
  | case2 k' v' more hlt =>
    refine increasing_cons.mpr ⟨List.forall_mem_cons.mpr ⟨hlt, fun n hn => ?_⟩, h⟩
    exact String.lt_trans hlt ((increasing_cons.mp h).1 n hn)
  | case3 v' more hlt => exact increasing_cons.mpr (increasing_cons.mp h)
  | case4 k' v' more hlt hne ih =>
    obtain ⟨hhead, htail⟩ := increasing_cons.mp h
    refine increasing_cons.mpr ⟨fun n hn => ?_, ih htail⟩
    rcases mem_of_mem_insertMember hn with rfl | hn
    · exact Std.lt_of_le_of_ne (String.not_lt.mp hlt) fun e => hne e.symm
    · exact hhead n hn

/-- With a new key there is one member more. -/
theorem insertMember_perm (hk : k ∉ ms.map Prod.fst) : (insertMember k v ms).Perm ((k, v) :: ms) := by
  fun_induction insertMember k v ms with
  | case1 => exact List.Perm.refl _
  | case2 => exact List.Perm.refl _
  | case3 v' more hlt => exact absurd List.mem_cons_self hk
  | case4 k' v' more hlt hne ih =>
    exact ((ih fun h => hk (List.mem_cons_of_mem k' h)).cons (k', v')).trans (List.Perm.swap _ _ _)

theorem increasing_foldl_insertMember (h : Increasing done) :
    Increasing (ms.foldl (fun done m => insertMember m.1 m.2 done) done) := by
  induction ms generalizing done with
  | nil => exact h
  | cons m ms ih => exact ih (increasing_insertMember h)

theorem foldl_insertMember_perm (h : ((done ++ ms).map Prod.fst).Nodup) :
    (ms.foldl (fun done m => insertMember m.1 m.2 done) done).Perm (done ++ ms) := by
  induction ms generalizing done with
  | nil => rw [List.append_nil]; exact List.Perm.refl done
  | cons m ms ih =>
    have hperm : (insertMember m.1 m.2 done).Perm (m :: done) := by
      refine insertMember_perm fun hm => ?_
      rw [List.map_append] at h
      exact (List.nodup_append.mp h).2.2 m.1 hm m.1 (by simp) rfl
    have hmiddle : (insertMember m.1 m.2 done ++ ms).Perm (done ++ m :: ms) :=
      (hperm.append_right ms).trans List.perm_middle.symm
    exact (ih ((hmiddle.map Prod.fst).nodup_iff.mpr h)).trans hmiddle

end Tree

theorem Increasing.nodup (h : Increasing ms) : (ms.map Prod.fst).Nodup :=
  List.Pairwise.imp (fun hlt => String.ne_of_lt hlt) h

/-- There is one order in which the keys increase. -/
theorem Increasing.eq_of_perm {ns : List (String × α)} (hm : Increasing ms) (hn : Increasing ns) (h : ms.Perm ns) :
    ms = ns :=
  h.eq_of_pairwise (fun _ _ _ _ hab hba => absurd hba (String.lt_asymm hab)) hm.pairwise hn.pairwise

/-- Members with different keys come in the order of their keys. -/
theorem Tree.foldl_insertMember_eq {ns : List (String × α)} (hn : Increasing ns) (h : ms.Perm ns) :
    ms.foldl (fun done m => insertMember m.1 m.2 done) [] = ns := by
  have hnodup : (([] ++ ms).map Prod.fst).Nodup := (h.map Prod.fst).nodup_iff.mpr hn.nodup
  have hempty : Increasing ([] : List (String × α)) := List.Pairwise.nil
  exact (increasing_foldl_insertMember hempty).eq_of_perm hn ((foldl_insertMember_perm hnodup).trans h)

/-- The keys of a dictionary increase. -/
theorem Tree.increasing_of_dictionary? {read : Tree → Option String} {t : Tree} {ms : List (String × String)}
    (h : t.dictionary? read = some ms) : Increasing ms := by
  cases t with
  | object members =>
    obtain ⟨pairs, -, heq⟩ := Option.bind_eq_some_iff.mp h
    obtain rfl := Option.some.inj heq
    have hempty : Increasing ([] : List (String × String)) := List.Pairwise.nil
    exact increasing_foldl_insertMember hempty
  | _ => cases h

end Checkup.Json
