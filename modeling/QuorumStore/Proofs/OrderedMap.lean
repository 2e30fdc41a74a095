import Std.Data.ExtTreeMap
import Std.Data.ExtTreeSet

/-!
# Maps and sets made from lists

Requests carry lists; replicas are asked with maps and sets made from them. Two keys compare as
equal only if they are equal.

* `mem_setOfList`, `mem_mapOfList`: the members of the set of a list, and the keys of its map.
* `mem_of_getElem?_mapOfList`: every entry of the map of a list is in the list.
* `mapOfList_toList`, `setOfList_toList`: the map of the entries of a map, and the set of the members
  of a set.
-/

namespace QuorumStore

open Std

variable {κ α : Type} [Ord κ] [TransOrd κ] [LawfulEqOrd κ]

theorem mem_setOfList {l : List κ} {k : κ} : k ∈ ExtTreeSet.ofList l compare ↔ k ∈ l := by
  classical simp

theorem mem_mapOfList {l : List (κ × α)} {k : κ} :
    k ∈ ExtTreeMap.ofList l compare ↔ k ∈ l.map Prod.fst := by
  classical simp

/-- Every entry of the map of a list is in the list. -/
theorem mem_of_getElem?_mapOfList {l : List (κ × α)} {k : κ} {v : α}
    (h : (ExtTreeMap.ofList l compare)[k]? = some v) : (k, v) ∈ l := by
  classical
  rw [ExtTreeMap.ofList_eq_insertMany_empty, ExtTreeMap.getElem?_insertMany_list,
    ExtTreeMap.getElem?_empty, Option.or_none, List.findSomeRev?_eq_findSome?_reverse] at h
  obtain ⟨⟨k', v'⟩, hmem, hv⟩ := List.exists_of_findSome?_eq_some h
  simp only [Option.ite_none_right_eq_some, Option.some.injEq] at hv
  rw [← LawfulEqOrd.eq_of_compare hv.1, ← hv.2]
  exact List.mem_reverse.1 hmem

theorem mapOfList_toList (m : ExtTreeMap κ α) : ExtTreeMap.ofList m.toList compare = m := by
  refine ExtTreeMap.ext_getElem? fun k => Option.ext fun x => ?_
  constructor
  · intro h
    exact ExtTreeMap.mem_toList_iff_getElem?_eq_some.1 (mem_of_getElem?_mapOfList h)
  · intro h
    have hdistinct : m.toList.Pairwise fun a b => ¬ compare a.1 b.1 = .eq :=
      ExtTreeMap.distinct_keys_toList
    exact ExtTreeMap.getElem?_ofList_of_mem compare_self hdistinct
      (ExtTreeMap.mem_toList_iff_getElem?_eq_some.2 h)

theorem setOfList_toList (s : ExtTreeSet κ) : ExtTreeSet.ofList s.toList compare = s :=
  ExtTreeSet.ext_mem fun k => by rw [mem_setOfList, ExtTreeSet.mem_toList]

end QuorumStore
