import QuorumStore.Proofs.Cluster.Requests
import QuorumStore.Proofs.Ring.Replicas
import QuorumStore.Proofs.Routed
import QuorumStore.Proofs.Store.Shard

/-!
# What the replicas of a ring are asked

A verb that needs a quorum is split into calls. On a ring the call of a replica is the verb about the
keys in the rows of that replica, so a batch is split exactly as the rows are.

* `Ring.owns`: whether a row is on a replica.
* `Coordinator.call_eq_restrict`: **a replica is asked the verb about its rows.**
* `Coordinator.exists_call`: every replica of the row of a key is called.
* `Coordinator.heard_of_answered`: an answer is made of good answers of which each row has one.
-/

namespace QuorumStore

open Std Quorum

variable {α : Type}

/-- Whether a row is on a replica. -/
def Ring.owns (r : Ring) (id : ReplicaId) (row : Bytes) : Bool := decide (id ∈ r.replicasOf row)

namespace Coordinator

variable {k : Coordinator} {r : Ring} {v : Verb α} {q : k.Routed α} {p : Bytes → Bool}
  {call : Nat × ReplicaId × Verb α}

/-- The rows of the keys that a request distributes are the rows of the verb. -/
theorem rows_eq (hq : k.routed? v = some q) :
    v.rows = q.keys.map fun key => q.rowOf (q.request.unitOf key) := by
  cases v with
  | getRows table rows columns t =>
    cases hq
    exact (List.map_id rows).symm
  | get | getLatestTimestamps | getAllTimestamps | put | putWithTimestamps | putUnlessExists | delete
  | addSentinels => cases hq; rfl
  | _ => cases hq

/-- A call about the keys in some rows is the verb about these rows. -/
theorem call_filter (hq : k.routed? v = some q) (p : Bytes → Bool) :
    q.request.call (q.keys.filter fun key => p (q.rowOf (q.request.unitOf key))) = v.restrict p := by
  have hmap : ∀ {β : Type} (m : ExtTreeMap Cell β),
      ExtTreeMap.ofList (m.toList.filter fun e => p e.1.row) compare =
        m.filter fun cell _ => p cell.row := by
    intro β m
    rw [← mapOfList_toList (m.filter fun cell _ => p cell.row), ExtTreeMap.toList_filter]
  have hset : ∀ cells : ExtTreeSet Cell,
      ExtTreeSet.ofList (cells.toList.filter fun cell => p cell.row) compare =
        cells.filter fun cell => p cell.row := by
    intro cells
    rw [← setOfList_toList (cells.filter fun cell => p cell.row), ExtTreeSet.toList_filter]
  cases v with
  | getRows table rows columns t => cases hq; rfl
  | get table cells => cases hq; exact congrArg (Verb.get table) (hmap cells)
  | getLatestTimestamps table cells =>
    cases hq
    exact congrArg (Verb.getLatestTimestamps table) (hmap cells)
  | getAllTimestamps table cells t =>
    cases hq
    exact congrArg (Verb.getAllTimestamps table · t) (hset cells)
  | put table values ts => cases hq; exact congrArg (Verb.put table · ts) (hmap values)
  | putWithTimestamps table entries => cases hq; rfl
  | putUnlessExists table values =>
    cases hq
    exact congrArg (Verb.putUnlessExists table) (hmap values)
  | delete table versions => cases hq; rfl
  | addSentinels table cells => cases hq; exact congrArg (Verb.addSentinels table) (hset cells)
  | _ => cases hq

/-- Every key belongs to a unit of the request. -/
theorem mem_units (hq : k.routed? v = some q) {key : q.κ} (hkey : key ∈ q.keys) :
    q.request.unitOf key ∈ q.request.units := by
  have hmap : ∀ {β : Type} {m : ExtTreeMap Cell β} {e : Cell × β}, e ∈ m.toList → e.1 ∈ m.keys := by
    intro β m e he
    rw [← ExtTreeMap.map_fst_toList_eq_keys]
    exact List.mem_map_of_mem he
  cases v with
  | getRows | getAllTimestamps | putWithTimestamps | delete | addSentinels =>
    cases hq
    exact hkey
  | get | getLatestTimestamps | put | putUnlessExists =>
    cases hq
    exact hmap hkey
  | _ => cases hq

/-- The group of a replica is that of its rows. -/
theorem group_eq (hk : k.placement = r.placement) {id : ReplicaId} {group : List q.κ}
    (hgroup : (id, group) ∈ q.request.plan) :
    (∃ key ∈ q.keys, r.owns id (q.rowOf (q.request.unitOf key)) = true) ∧
      group = q.keys.filter fun key => r.owns id (q.rowOf (q.request.unitOf key)) := by
  rw [q.plan_eq, hk] at hgroup
  obtain ⟨⟨key, hkey, hid⟩, rfl⟩ := mem_groupByReplica_iff.1 hgroup
  exact ⟨⟨key, hkey, decide_eq_true hid⟩, ownKeys_eq_filter r.nodup_replicasOf _ _⟩

/-- **A replica is asked the verb about its rows**, and some of the keys are in them. -/
theorem call_eq_restrict (hk : k.placement = r.placement) (hq : k.routed? v = some q)
    (hcall : call ∈ k.calls v) : call.2.2 = v.restrict (r.owns call.2.1) ∧
      ∃ row ∈ v.rows, r.owns call.2.1 row = true := by
  obtain ⟨group, hget, hverb⟩ := (mem_calls_iff hq).1 hcall
  obtain ⟨⟨key, hkey, howns⟩, hgroup⟩ := group_eq hk (List.mem_of_getElem? hget)
  refine ⟨?_, q.rowOf (q.request.unitOf key), ?_, howns⟩
  · rw [hverb, hgroup, call_filter hq]
  · rw [rows_eq hq]
    exact List.mem_map_of_mem hkey

/-- Every replica of the row of a key is called. -/
theorem exists_call (hk : k.placement = r.placement) (hq : k.routed? v = some q) {row : Bytes}
    (hrow : row ∈ v.rows) {id : ReplicaId} (howns : r.owns id row = true) :
    ∃ call ∈ k.calls v, call.2.1 = id := by
  rw [rows_eq hq] at hrow
  obtain ⟨key, hkey, rfl⟩ := List.mem_map.1 hrow
  have hgroup : (id, ownKeys (fun key => q.rowOf (q.request.unitOf key)) r.replicasOf q.keys id) ∈
      q.request.plan := by
    rw [q.plan_eq, hk]
    exact mem_groupByReplica_iff.2 ⟨⟨key, hkey, of_decide_eq_true howns⟩, rfl⟩
  obtain ⟨ticket, hget⟩ := List.mem_iff_getElem?.1 hgroup
  exact ⟨(ticket, id, q.request.call _), (mem_calls_iff hq).2 ⟨_, hget, rfl⟩, rfl⟩

/-- A request that is decided before any answer has nobody to ask. -/
theorem plan_eq_nil_of_finished (hq : k.routed? v = some q)
    (h : q.request.start.tally.finished = true) : q.request.plan = [] := by
  have hgood := q.request.follows_start.good_of_answered h q.request.start_failed
  have hunits : ∀ u, u ∉ q.request.units := by
    intro u hu
    exact absurd (hgood u hu) (Nat.not_le.2 q.request.policy.success_pos)
  have hkeys : q.keys = [] :=
    List.eq_nil_iff_forall_not_mem.2 fun key hkey => hunits _ (mem_units hq hkey)
  rw [q.plan_eq, hkeys]
  rfl

/-- Calls of a request that have finished are different calls of it. -/
theorem arrived_of_perm {stores : ReplicaId → Store} {served left : List (Nat × ReplicaId × Verb α)}
    (hperm : (served ++ left).Perm q.request.calls) :
    q.request.Arrived (served.map (completionOf stores)) := by
  have hall : q.request.Arrived ((served ++ left).map (completionOf stores)) := by
    refine QuorumRequest.arrived_of_all ?_
    rw [List.map_map, ← q.request.tickets_calls]
    exact hperm.map Prod.fst
  rw [List.map_append] at hall
  exact hall.of_append

/-- **What an answer is made of**: the answers of replicas of which each row of a key has one that
succeeded. -/
theorem heard_of_answered {stores : ReplicaId → Store}
    {served left : List (Nat × ReplicaId × Verb α)} {a : α} (hk : k.placement = r.placement)
    (hq : k.routed? v = some q) (hperm : (served ++ left).Perm q.request.calls)
    (h : (q.request.execute {} (served.map (completionOf stores))).1 = .ok a) :
    ∃ heard : List ReplicaId,
      a = (heard.filterMap fun id =>
        (Store.run (v.restrict (r.owns id)) (stores id)).1.toOption).foldl q.request.merge
          q.request.empty ∧
      (∀ id ∈ heard, ∃ row ∈ v.rows, r.owns id row = true) ∧
      ∀ row ∈ v.rows, ∃ id ∈ heard, r.owns id row = true ∧
        (Store.run (v.restrict (r.owns id)) (stores id)).1.isOk = true := by
  obtain ⟨pre, post, hsplit, ha, hgood⟩ :=
    QuorumRequest.of_execute_ok (arrived_of_perm hperm) {} h
  obtain ⟨heard, rest, rfl, rfl, -⟩ := List.map_eq_append_iff.1 hsplit
  have hcalls : ∀ call ∈ heard, call ∈ k.calls v := by
    intro call hcall
    rw [calls_eq hq]
    exact hperm.subset (List.mem_append_left _ (List.mem_append_left _ hcall))
  have hasked : ∀ call ∈ heard, call.2.2 = v.restrict (r.owns call.2.1) :=
    fun call hcall => (call_eq_restrict hk hq (hcalls call hcall)).1
  refine ⟨heard.map (·.2.1), ?_, fun id hid => ?_, fun row hrow => ?_⟩
  · rw [ha, List.filterMap_map, List.filterMap_map]
    congr 1
    refine List.filterMap_congr fun call hcall => ?_
    show (Store.run call.2.2 (stores call.2.1)).1.toOption = _
    rw [hasked call hcall]
    rfl
  · obtain ⟨call, hcall, rfl⟩ := List.mem_map.1 hid
    exact (call_eq_restrict hk hq (hcalls call hcall)).2
  · rw [rows_eq hq] at hrow
    obtain ⟨key, hkey, rfl⟩ := List.mem_map.1 hrow
    have hpos : 0 < q.request.good (heard.map (completionOf stores)) (q.request.unitOf key) :=
      Nat.lt_of_lt_of_le q.request.policy.success_pos (hgood _ (mem_units hq hkey))
    obtain ⟨d, hd, hcovers⟩ := List.countP_pos_iff.1 hpos
    obtain ⟨call, hcall, rfl⟩ := List.mem_map.1 hd
    rw [Bool.and_eq_true] at hcovers
    obtain ⟨hcovers, hok⟩ := hcovers
    obtain ⟨⟨id, group⟩, hget, hunit⟩ := QuorumRequest.covers_iff.1 hcovers
    obtain ⟨group', hget', -⟩ := (mem_calls_iff hq).1 (hcalls call hcall)
    have hsame : some (id, group) = some (call.2.1, group') := hget.symm.trans hget'
    cases hsame
    -- a key of the call that belongs to the unit has the row of the unit
    obtain ⟨-, hgroup⟩ := group_eq hk (List.mem_of_getElem? hget')
    rw [hgroup] at hunit
    obtain ⟨key', hkey', hu⟩ := List.mem_map.1 hunit
    have howns := (List.mem_filter.1 hkey').2
    rw [hu] at howns
    refine ⟨call.2.1, List.mem_map_of_mem hcall, howns, ?_⟩
    rw [← hasked call hcall]
    exact hok

/-- **What the calls of a batch do**: each replica makes the changes of its rows, called or not. -/
theorem stores_of_reached {stores stores' : ReplicaId → Store} (hk : k.placement = r.placement)
    (hq : k.routed? v = some q) (e : v.Edit) (h : Reached stores (k.calls v) stores')
    (id : ReplicaId) : stores' id = (Store.run (v.restrict (r.owns id)) (stores id)).2 := by
  by_cases hcalled : id ∈ (k.calls v).map (·.2.1)
  · obtain ⟨call, hcall, rfl⟩ := List.mem_map.1 hcalled
    rw [h.called call hcall, (call_eq_restrict hk hq hcall).1]
  · rw [h.spared id hcalled, e.run_restrict_of_none]
    intro row hrow howns
    obtain ⟨call, hcall, rfl⟩ := exists_call hk hq hrow howns
    exact hcalled (List.mem_map_of_mem hcall)

end Coordinator

end QuorumStore
