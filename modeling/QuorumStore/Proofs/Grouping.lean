import Mathlib.Data.List.Count
import QuorumStore.Placement

/-!
# The groups of keys

Keys are distributed to the replicas of their rows one by one. What a replica is asked for in the
end is the list of the keys with its rows.

* `ownKeys`, `ownKeys_eq_filter`: the keys that belong to a replica, in the order of the list.
* `mem_groupByReplica_iff`: the groups are those of the replicas of some key, each with all its keys.
* `ids_pairwise_groupByReplica`: the groups are in the order of replica ids.
* `ids_nodup_groupByReplica`: no replica has two groups.
-/

namespace QuorumStore

open Std

section Group

variable {κ : Type} {groups : ExtTreeMap ReplicaId (List κ)} {id replica : ReplicaId}

theorem getD_addToGroup (groups : ExtTreeMap ReplicaId (List κ)) (replica id : ReplicaId) (key : κ) :
    (addToGroup groups replica key).getD id [] =
      groups.getD id [] ++ if replica = id then [key] else [] := by
  unfold addToGroup
  rw [ExtTreeMap.getD_insert]
  by_cases h : replica = id
  · subst h
    rw [if_pos compare_self, if_pos rfl]
  · rw [if_neg fun hc => h (LawfulEqOrd.eq_of_compare hc), if_neg h, List.append_nil]

theorem mem_addToGroup {key : κ} :
    id ∈ addToGroup groups replica key ↔ replica = id ∨ id ∈ groups := by
  unfold addToGroup
  rw [ExtTreeMap.mem_insert, LawfulEqOrd.compare_eq_iff_eq]

/-- A key goes to a replica as often as its row is routed there. -/
theorem getD_foldl_addToGroup (route : List ReplicaId) (groups : ExtTreeMap ReplicaId (List κ))
    (id : ReplicaId) (key : κ) :
    (route.foldl (fun gs r => addToGroup gs r key) groups).getD id [] =
      groups.getD id [] ++ List.replicate (route.count id) key := by
  induction route generalizing groups with
  | nil => simp
  | cons r route ih =>
    rw [List.foldl_cons, ih, getD_addToGroup, List.append_assoc, List.count_cons]
    by_cases h : r = id
    · subst h
      rw [if_pos rfl, if_pos (beq_self_eq_true r), List.replicate_succ, List.singleton_append]
    · rw [if_neg h, if_neg (by simpa using h), List.nil_append, Nat.add_zero]

theorem mem_foldl_addToGroup (route : List ReplicaId) {key : κ} :
    id ∈ route.foldl (fun gs r => addToGroup gs r key) groups ↔ id ∈ route ∨ id ∈ groups := by
  induction route generalizing groups with
  | nil => simp
  | cons r route ih =>
    rw [List.foldl_cons, ih, mem_addToGroup, List.mem_cons, eq_comm (a := r)]
    tauto

/-- The keys that belong to a replica, in the order of the list. -/
def ownKeys (row : κ → Bytes) (route : Bytes → List ReplicaId) (keys : List κ) (id : ReplicaId) :
    List κ :=
  keys.flatMap fun key => List.replicate ((route (row key)).count id) key

variable {row : κ → Bytes} {route : Bytes → List ReplicaId} {keys group : List κ} {key : κ}

theorem mem_ownKeys : key ∈ ownKeys row route keys id ↔ key ∈ keys ∧ id ∈ route (row key) := by
  unfold ownKeys
  simp only [List.mem_flatMap, List.mem_replicate, ne_eq, List.count_eq_zero, not_not]
  constructor
  · rintro ⟨k, hk, hid, rfl⟩
    exact ⟨hk, hid⟩
  · rintro ⟨hk, hid⟩
    exact ⟨key, hk, hid, rfl⟩

/-- On a placement that lists no replica twice a replica has each of its keys once. -/
theorem ownKeys_eq_filter (hroute : ∀ r, (route r).Nodup) (keys : List κ) (id : ReplicaId) :
    ownKeys row route keys id = keys.filter fun key => decide (id ∈ route (row key)) := by
  unfold ownKeys
  induction keys with
  | nil => rfl
  | cons key keys ih =>
    rw [List.flatMap_cons, ih, List.filter_cons, (hroute (row key)).count]
    by_cases h : id ∈ route (row key)
    · rw [if_pos h, if_pos (decide_eq_true h)]
      rfl
    · rw [if_neg h, if_neg (by simpa using h)]
      rfl

/-- Distributing the keys adds to each group its own keys. -/
theorem distribute_spec (row : κ → Bytes) (route : Bytes → List ReplicaId) (keys : List κ)
    (groups : ExtTreeMap ReplicaId (List κ)) (id : ReplicaId) :
    (keys.foldl (fun gs key => (route (row key)).foldl (fun gs r => addToGroup gs r key) gs)
        groups).getD id [] = groups.getD id [] ++ ownKeys row route keys id ∧
    (id ∈ keys.foldl (fun gs key => (route (row key)).foldl (fun gs r => addToGroup gs r key) gs)
        groups ↔ (∃ key ∈ keys, id ∈ route (row key)) ∨ id ∈ groups) := by
  induction keys generalizing groups with
  | nil => exact ⟨(List.append_nil _).symm, by simp⟩
  | cons k keys ih =>
    obtain ⟨hget, hmem⟩ := ih ((route (row k)).foldl (fun gs r => addToGroup gs r k) groups)
    rw [List.foldl_cons, hget, hmem, getD_foldl_addToGroup, mem_foldl_addToGroup]
    refine ⟨List.append_assoc _ _ _, ?_⟩
    simp only [List.mem_cons, exists_eq_or_imp]
    exact or_left_comm.trans or_assoc.symm

/-- **The groups are those of the replicas of some key, each with all its keys.** -/
theorem mem_groupByReplica_iff : (id, group) ∈ groupByReplica row route keys ↔
    (∃ key ∈ keys, id ∈ route (row key)) ∧ group = ownKeys row route keys id := by
  obtain ⟨hget, hmem⟩ := distribute_spec row route keys ∅ id
  rw [ExtTreeMap.getD_empty, List.nil_append, ExtTreeMap.getD_eq_getD_getElem?] at hget
  unfold groupByReplica
  rw [ExtTreeMap.mem_toList_iff_getElem?_eq_some]
  rw [ExtTreeMap.mem_iff_isSome_getElem?] at hmem
  constructor
  · intro h
    rw [h] at hget hmem
    exact ⟨(hmem.1 rfl).resolve_right ExtTreeMap.not_mem_empty, hget⟩
  · rintro ⟨hrouted, rfl⟩
    obtain ⟨g, hg⟩ := Option.isSome_iff_exists.1 (hmem.2 (Or.inl hrouted))
    rw [hg] at hget ⊢
    exact congrArg some hget

/-- The groups are in the order of replica ids. -/
theorem ids_pairwise_groupByReplica (row : κ → Bytes) (route : Bytes → List ReplicaId)
    (keys : List κ) :
    (groupByReplica row route keys).Pairwise fun a b => compare a.1 b.1 = .lt :=
  ExtTreeMap.ordered_keys_toList

/-- No replica has two groups. -/
theorem ids_nodup_groupByReplica (row : κ → Bytes) (route : Bytes → List ReplicaId)
    (keys : List κ) : ((groupByReplica row route keys).map Prod.fst).Nodup := by
  rw [List.Nodup, List.pairwise_map]
  refine (ids_pairwise_groupByReplica row route keys).imp fun h heq => ?_
  rw [heq, compare_self] at h
  cases h

end Group

end QuorumStore
