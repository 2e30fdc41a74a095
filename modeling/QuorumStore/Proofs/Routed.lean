import QuorumStore.Cluster.Services
import QuorumStore.Proofs.Merge
import QuorumStore.Proofs.Quorum.Backers
import QuorumStore.Proofs.Store

/-!
# Verbs that need a quorum

Nine of the verbs are requests to a quorum of the replicas of each row. What is asked of a replica
is the same verb about the keys that the replica holds.

* `Coordinator.Routed`, `Coordinator.routed?`: the request of a verb, with the keys it distributes.
* `run_eq`: the coordinator answers such a verb by running the request.
* `run_eq_broadcast`: what is to happen on every replica is asked of them in turn.
* `Coordinator.calls`: the calls of any verb.
* `exists_unit_of_writes`, `exists_unit_of_readsAt`: a verb about a cell has a unit for it, and every
  call that covers the unit is about the cell too.
* `exists_unit_of_deletes`: so does a verb that deletes a version, and every replica has to answer.
* `spares_of_mem_calls`, `writes_of_mem_calls`: the calls of a verb remove and write nothing that the
  verb does not.
* `shows_merge`: merging keeps what a part of the answer shows.
-/

namespace QuorumStore

open Std Quorum

/-- The answer to a read of latest versions has the cell at the timestamp or later. -/
def Verb.Shows {α : Type} (v : Verb α) (answer : α) (cell : Cell) (ts : Timestamp) : Prop :=
  ∃ stamp, v.stamp? answer cell = some stamp ∧ ts ≤ stamp

/-- Whether a verb is a side effect on every replica. -/
def Verb.OnEveryReplica {α : Type} : Verb α → Prop
  | .createTable .. | .dropTable _ | .truncateTable _ | .putMetadata .. | .compact _
  | .prepareFresh | .close | .teardown => True
  | _ => False

namespace Coordinator

/-- A request of the coordinator to a quorum, with the keys that it distributes. -/
structure Routed (c : Coordinator) (α : Type) where
  {κ υ : Type}
  [ord : Ord υ]
  [trans : TransOrd υ]
  [lawful : LawfulEqOrd υ]
  /-- The request. -/
  request : QuorumRequest κ υ α α
  /-- The keys. -/
  keys : List κ
  /-- The row of a unit. -/
  rowOf : υ → Bytes
  plan_eq : request.plan = c.placement.group (fun k => rowOf (request.unitOf k)) keys := by rfl

attribute [instance] Routed.ord Routed.trans Routed.lawful

variable (c : Coordinator) {α : Type}

/-- The request to a quorum that a verb leads to, if it leads to one. -/
def routed? : Verb α → Option (c.Routed α)
  | .getRows table rows columns t =>
    some { request := c.getRows table rows columns t, keys := rows, rowOf := id }
  | .get table cells =>
    some { request := c.get table cells, keys := cells.toList, rowOf := Cell.row }
  | .getLatestTimestamps table cells =>
    some { request := c.getLatestTimestamps table cells, keys := cells.toList, rowOf := Cell.row }
  | .getAllTimestamps table cells t =>
    some { request := c.getAllTimestamps table cells t, keys := cells.toList, rowOf := Cell.row }
  | .put table values ts =>
    some { request := c.put table values ts, keys := values.toList, rowOf := Cell.row }
  | .putWithTimestamps table entries =>
    some { request := c.putWithTimestamps table entries, keys := entries, rowOf := fun u => u.1.row }
  | .putUnlessExists table values =>
    some { request := c.putUnlessExists table values, keys := values.toList, rowOf := Cell.row }
  | .delete table versions =>
    some { request := c.delete table versions, keys := versions, rowOf := fun u => u.1.row }
  | .addSentinels table cells =>
    some { request := c.addSentinels table cells, keys := cells.toList, rowOf := Cell.row }
  | _ => none

/-- The calls of a verb, by their numbers. A verb that needs no quorum is asked of the replicas
themselves, one after the other. -/
def calls (v : Verb α) : List (Nat × ReplicaId × Verb α) :=
  match c.routed? v with
  | some q => q.request.calls
  | none => c.placement.replicas.zipIdx.map fun (id, ticket) => (ticket, id, v)

variable {c} {v : Verb α} {q : c.Routed α}

/-- **The coordinator answers a verb that needs a quorum by running its request.** -/
theorem run_eq (h : c.routed? v = some q) : c.run v = q.request.run := by
  cases v <;> cases h <;> rfl

/-- Side effects on every replica are made in turn. -/
theorem run_eq_broadcast {v : Verb Unit} (hv : v.OnEveryReplica) : c.run v = c.broadcast v := by
  -- a case split needs the type of the answers to be free
  have hall : ∀ {α : Type} {v : Verb α}, v.OnEveryReplica → ∃ v' : Verb Unit,
      (⟨α, v⟩ : (τ : Type) × Verb τ) = ⟨Unit, v'⟩ ∧ c.run v' = c.broadcast v' := by
    intro α v hv
    cases v with
    | createTable | dropTable | truncateTable | putMetadata | compact | prepareFresh | close
    | teardown => exact ⟨_, rfl, rfl⟩
    | _ => exact hv.elim
  obtain ⟨v', heq, hrun⟩ := hall hv
  cases heq
  exact hrun

theorem calls_eq (h : c.routed? v = some q) : c.calls v = q.request.calls := by
  unfold calls
  rw [h]

/-- The calls of a request, by their place in its plan. -/
theorem mem_calls_iff {call : Nat × ReplicaId × Verb α} (h : c.routed? v = some q) :
    call ∈ c.calls v ↔ ∃ keys, q.request.plan[call.1]? = some (call.2.1, keys) ∧
      call.2.2 = q.request.call keys := by
  obtain ⟨ticket, replica, verb⟩ := call
  rw [calls_eq h]
  unfold QuorumRequest.calls
  simp only [List.mem_map, Prod.exists, List.mk_mem_zipIdx_iff_getElem?, Prod.mk.injEq]
  constructor
  · rintro ⟨id, keys, n, hget, rfl, rfl, rfl⟩
    exact ⟨keys, hget, rfl⟩
  · rintro ⟨keys, hget, rfl⟩
    exact ⟨replica, keys, ticket, hget, rfl, rfl, rfl⟩

/-- No replica is called twice. -/
theorem Routed.ids_nodup (q : c.Routed α) : (q.request.plan.map Prod.fst).Nodup := by
  rw [q.plan_eq]
  exact ids_nodup_groupByReplica _ _ _

/-- What a call is asked for are keys of the request. -/
theorem Routed.mem_keys (q : c.Routed α) {ticket : Nat} {replica : ReplicaId} {group : List q.κ}
    (h : q.request.plan[ticket]? = some (replica, group)) : ∀ k ∈ group, k ∈ q.keys := by
  have hmem := List.mem_of_getElem? h
  rw [q.plan_eq] at hmem
  intro k hk
  rw [(mem_groupByReplica_iff.1 hmem).2] at hk
  exact (mem_ownKeys.1 hk).1

section Cells

variable {table : TableName} {cell : Cell} {t ts : Timestamp}

/-- **A write has a unit for each version it writes**: the unit needs a write quorum, and each call
that covers it writes the version. -/
theorem exists_unit_of_writes (h : v.Writes table cell ts) : ∃ q, c.routed? v = some q ∧
    q.request.policy = c.factors.writePolicy ∧
    ∃ u ∈ q.request.units, q.rowOf u = cell.row ∧
      ∀ group, u ∈ group.map q.request.unitOf → (q.request.call group).Writes table cell ts := by
  cases v with
  | put other values ts' =>
    obtain ⟨rfl, hcell, rfl⟩ := h
    refine ⟨_, rfl, rfl, cell, ExtTreeMap.mem_keys.2 hcell, rfl, fun group hu => ⟨rfl, ?_, rfl⟩⟩
    exact mem_mapOfList.2 hu
  | putWithTimestamps other entries =>
    obtain ⟨rfl, contents, hmem⟩ := h
    refine ⟨_, rfl, rfl, (cell, ⟨contents, ts⟩), hmem, rfl, fun group hu => ⟨rfl, contents, ?_⟩⟩
    rw [show group.map (c.putWithTimestamps other entries).unitOf = group from List.map_id group] at hu
    exact hu
  | putUnlessExists other values =>
    obtain ⟨rfl, hcell, rfl⟩ := h
    refine ⟨_, rfl, rfl, cell, ExtTreeMap.mem_keys.2 hcell, rfl, fun group hu => ⟨rfl, ?_, rfl⟩⟩
    exact mem_mapOfList.2 hu
  | addSentinels other cells =>
    obtain ⟨rfl, hcell, rfl⟩ := h
    refine ⟨_, rfl, rfl, cell, ExtTreeSet.mem_toList.2 hcell, rfl, fun group hu => ⟨rfl, ?_, rfl⟩⟩
    rw [show group.map (c.addSentinels other cells).unitOf = group from List.map_id group] at hu
    exact mem_setOfList.2 hu
  | _ => exact h.elim

/-- **A delete has a unit for each version it deletes**: the unit needs every replica, and each call
that covers it deletes the version. -/
theorem exists_unit_of_deletes (h : v.Deletes table cell ts) : ∃ q, c.routed? v = some q ∧
    q.request.policy = c.factors.everyReplicaPolicy ∧
    ∃ u ∈ q.request.units, q.rowOf u = cell.row ∧
      ∀ group, u ∈ group.map q.request.unitOf → (q.request.call group).Deletes table cell ts := by
  cases v with
  | delete other versions =>
    obtain ⟨rfl, hmem⟩ := h
    refine ⟨_, rfl, rfl, (cell, ts), hmem, rfl, fun group hu => ⟨rfl, ?_⟩⟩
    rw [show group.map (c.delete other versions).unitOf = group from List.map_id group] at hu
    exact hu
  | _ => exact h.elim

/-- A map made of some entries of a map gives a cell the time that the whole map gives it. -/
theorem getElem?_mapOfList_of_subset {cells : ExtTreeMap Cell Timestamp}
    {group : List (Cell × Timestamp)} (hsub : ∀ k ∈ group, k ∈ cells.toList)
    (hcell : cell ∈ group.map Prod.fst) (hget : cells[cell]? = some t) :
    (ExtTreeMap.ofList group compare)[cell]? = some t := by
  obtain ⟨t', ht'⟩ := Option.isSome_iff_exists.1
    (ExtTreeMap.mem_iff_isSome_getElem?.1 (mem_mapOfList.2 hcell))
  have hmem := hsub _ (mem_of_getElem?_mapOfList ht')
  rw [ExtTreeMap.mem_toList_iff_getElem?_eq_some, hget] at hmem
  rw [ht', hmem]

/-- **A read has a unit for each cell it reads**: the unit needs a read quorum, and each call that
covers it reads the cell at the same time. -/
theorem exists_unit_of_readsAt (h : v.ReadsAt table cell t) : ∃ q, c.routed? v = some q ∧
    q.request.policy = c.factors.readPolicy ∧
    ∃ u ∈ q.request.units, q.rowOf u = cell.row ∧
      ∀ group, (∀ k ∈ group, k ∈ q.keys) → u ∈ group.map q.request.unitOf →
        (q.request.call group).ReadsAt table cell t := by
  cases v with
  | getRows other rows columns t' =>
    obtain ⟨rfl, hrow, hkeep, rfl⟩ := h
    refine ⟨_, rfl, rfl, cell.row, hrow, rfl, fun group _ hu => ⟨rfl, ?_, hkeep, rfl⟩⟩
    rw [show group.map (c.getRows other rows columns t').unitOf = group from List.map_id group] at hu
    exact hu
  | get other cells =>
    obtain ⟨rfl, hget⟩ := h
    have hcell : cell ∈ cells := ExtTreeMap.mem_iff_isSome_getElem?.2 (by rw [hget]; rfl)
    refine ⟨_, rfl, rfl, cell, ExtTreeMap.mem_keys.2 hcell, rfl, fun group hsub hu => ⟨rfl, ?_⟩⟩
    exact getElem?_mapOfList_of_subset hsub hu hget
  | getLatestTimestamps other cells =>
    obtain ⟨rfl, hget⟩ := h
    have hcell : cell ∈ cells := ExtTreeMap.mem_iff_isSome_getElem?.2 (by rw [hget]; rfl)
    refine ⟨_, rfl, rfl, cell, ExtTreeMap.mem_keys.2 hcell, rfl, fun group hsub hu => ⟨rfl, ?_⟩⟩
    exact getElem?_mapOfList_of_subset hsub hu hget
  | _ => exact h.elim

/-- The calls of a verb remove nothing that the verb does not remove. -/
theorem spares_of_mem_calls {call : Nat × ReplicaId × Verb α} (h : v.Spares table cell ts)
    (hcall : call ∈ c.calls v) : call.2.2.Spares table cell ts := by
  cases hq : c.routed? v with
  | none =>
    unfold calls at hcall
    rw [hq] at hcall
    obtain ⟨_, -, rfl⟩ := List.mem_map.1 hcall
    exact h
  | some q =>
    obtain ⟨group, hget, hverb⟩ := (mem_calls_iff hq).1 hcall
    have hsub := q.mem_keys hget
    rw [hverb]
    cases v with
    | delete other versions =>
      cases hq
      exact fun hsame hmem => h hsame (hsub _ hmem)
    | getRows | get | getLatestTimestamps | getAllTimestamps | put | putWithTimestamps
    | putUnlessExists | addSentinels => cases hq; trivial
    | _ => cases hq

/-- The calls of a verb write nothing that the verb does not write. -/
theorem writes_of_mem_calls {call : Nat × ReplicaId × Verb α} (hcall : call ∈ c.calls v)
    (h : call.2.2.Writes table cell ts) : v.Writes table cell ts := by
  cases hq : c.routed? v with
  | none =>
    unfold calls at hcall
    rw [hq] at hcall
    obtain ⟨_, -, rfl⟩ := List.mem_map.1 hcall
    exact h
  | some q =>
    obtain ⟨group, hget, hverb⟩ := (mem_calls_iff hq).1 hcall
    have hsub := q.mem_keys hget
    rw [hverb] at h
    -- a map made of some entries of a map has no other keys
    have hkey : ∀ {values : ExtTreeMap Cell Bytes} {entries : List (Cell × Bytes)},
        (∀ e ∈ entries, e ∈ values.toList) → cell ∈ ExtTreeMap.ofList entries compare →
          cell ∈ values := by
      intro values entries hentries hcell
      obtain ⟨⟨key, contents⟩, he, rfl⟩ := List.mem_map.1 (mem_mapOfList.1 hcell)
      have hvalue := ExtTreeMap.mem_toList_iff_getElem?_eq_some.1 (hentries _ he)
      exact ExtTreeMap.mem_iff_isSome_getElem?.2 (by rw [hvalue]; rfl)
    cases v with
    | put other values ts' =>
      cases hq
      exact ⟨h.1, hkey hsub h.2.1, h.2.2⟩
    | putWithTimestamps other entries =>
      cases hq
      obtain ⟨hsame, contents, hmem⟩ := h
      exact ⟨hsame, contents, hsub _ hmem⟩
    | putUnlessExists other values =>
      cases hq
      exact ⟨h.1, hkey hsub h.2.1, h.2.2⟩
    | addSentinels other cells =>
      cases hq
      exact ⟨h.1, ExtTreeSet.mem_toList.1 (hsub _ (mem_setOfList.1 h.2.1)), h.2.2⟩
    | getRows | get | getLatestTimestamps | getAllTimestamps | delete =>
      cases hq
      exact h.elim
    | _ => cases hq

/-- What a part of the answer shows is what the verb asked for shows. -/
theorem shows_call (h : c.routed? v = some q) (group : List q.κ) {a : α} :
    (q.request.call group).Shows a cell ts ↔ v.Shows a cell ts := by
  cases v <;> cases h <;> rfl

/-- **Merging keeps what a part of the answer shows.** -/
theorem shows_merge (h : c.routed? v = some q) (hreads : v.ReadsAt table cell t) {acc part : α}
    (hshows : v.Shows acc cell ts ∨ v.Shows part cell ts) :
    v.Shows (q.request.merge acc part) cell ts := by
  -- to show a cell is to have a value for it that is late enough
  have hvalues : ∀ m : ExtTreeMap Cell Value,
      (∃ stamp, m[cell]?.map Value.timestamp = some stamp ∧ ts ≤ stamp) ↔
        ∃ w : Value, m[cell]? = some w ∧ ts ≤ w.timestamp := by
    intro m
    cases m[cell]? <;> simp
  cases v with
  | getRows other rows columns t' =>
    cases h
    refine (hvalues _).2 (Merge.exists_getElem?_joinWith Merge.le_newer ?_)
    exact hshows.imp (hvalues acc).1 (hvalues part).1
  | get other cells =>
    cases h
    refine (hvalues _).2 (Merge.exists_getElem?_joinWith Merge.le_newer ?_)
    exact hshows.imp (hvalues acc).1 (hvalues part).1
  | getLatestTimestamps other cells =>
    cases h
    exact Merge.exists_getElem?_joinWith Merge.le_laterTimestamp hshows
  | _ => exact hreads.elim

theorem shows_foldl (h : c.routed? v = some q) (hreads : v.ReadsAt table cell t) {parts : List α}
    {acc : α} (hshows : v.Shows acc cell ts ∨ ∃ part ∈ parts, v.Shows part cell ts) :
    v.Shows (parts.foldl q.request.merge acc) cell ts := by
  induction parts generalizing acc with
  | nil =>
    rcases hshows with hacc | ⟨part, hpart, -⟩
    · exact hacc
    · cases hpart
  | cons p parts ih =>
    rw [List.foldl_cons]
    apply ih
    rcases hshows with hacc | ⟨part, hpart, hpartShows⟩
    · exact Or.inl (shows_merge h hreads (Or.inl hacc))
    · rcases List.mem_cons.1 hpart with rfl | hrest
      · exact Or.inl (shows_merge h hreads (Or.inr hpartShows))
      · exact Or.inr ⟨part, hrest, hpartShows⟩

end Cells

end Coordinator

end QuorumStore
