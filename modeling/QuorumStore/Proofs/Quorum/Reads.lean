import QuorumStore.Proofs.Quorum.FailFast
import QuorumStore.Proofs.Store.Reads

/-!
# What reads return

A read merges whole answers as they come, and stops when every unit has its quorum. Different cells
of one answer may so be backed by different replicas; what is returned is still the pointwise
maximum of the answers merged, and each of its entries is stored somewhere.

* `Coordinator.AnsweredFrom`: finished calls of a verb, answered from the stores of the replicas.
* `QuorumRequest.Backed`: succeeded calls that reach a quorum of replicas for every unit.
* `exists_backed`, `of_mem_parts`: the calls behind an answer, and what each of them was.
* `holds_of_tells`, `exists_tells_of_foldl`: what an answer tells of a cell some replica of its row has.
* `exists_part_getAllTimestamps`: no replica of a row is missing from a read of all timestamps.
* `reads_merge_replicas`: what each of the four point reads returns.
-/

namespace QuorumStore

open Std Quorum

/-- Succeeded calls, among those that have finished, that reach for every unit `n` different replicas
of those it is routed to. -/
structure QuorumRequest.Backed {κ υ τ α : Type} [Ord υ] (r : QuorumRequest κ υ τ α)
    (route : υ → List ReplicaId) (n : Nat) (cs S : List (Completion τ)) : Prop where
  sublist : S.Sublist cs
  succeeded : ∀ d ∈ S, d.result.isOk = true
  quorum : ∀ u ∈ r.units, n ≤ (r.backers S u).card
  placed : ∀ u ∈ r.units, r.backers S u ⊆ (route u).toFinset

/-- Something that has succeeded has a result. -/
theorem exists_of_isOk {α : Type} {x : Except Failure α} (h : x.isOk = true) : ∃ a, x = .ok a := by
  cases x with
  | error e => cases h
  | ok a => exact ⟨a, rfl⟩

namespace Coordinator

variable {c : Coordinator} {stores : ReplicaId → Store} {replica : ReplicaId}

section Calls

variable {α : Type} {v : Verb α} {q : c.Routed α} {cs S : List (Completion α)} {a : α}

/-- Finished calls of a verb: different calls, each of them failed or answered from the store that its
replica had when the call reached it. -/
structure AnsweredFrom (c : Coordinator) (v : Verb α) (stores : ReplicaId → Store)
    (cs : List (Completion α)) : Prop where
  nodup : (cs.map Completion.ticket).Nodup
  served : ∀ d ∈ cs, ∃ verb, (d.ticket, d.replica, verb) ∈ c.calls v ∧
    ∀ a, d.result = .ok a → (Store.run verb (stores d.replica)).1 = .ok a

/-- The answers of succeeded calls. -/
def parts (S : List (Completion α)) : List α := S.filterMap fun d => d.result.toOption

/-- All calls of a verb, answered by the stores of their replicas. -/
def allAnswered (c : Coordinator) (v : Verb α) (stores : ReplicaId → Store) : List (Completion α) :=
  (c.calls v).map fun (ticket, replica, verb) =>
    { ticket, replica, result := (Store.run verb (stores replica)).1 }

theorem answeredFrom_allAnswered (c : Coordinator) (v : Verb α) (stores : ReplicaId → Store) :
    c.AnsweredFrom v stores (c.allAnswered v stores) := by
  refine ⟨?_, fun d hd => ?_⟩
  · have hnumbers : ∀ {β : Type} (l : List β), (l.zipIdx.map Prod.snd).Nodup :=
      fun l => (List.zipIdx_map_snd 0 l).symm ▸ List.nodup_range'
    have htickets : ((c.calls v).map Prod.fst).Nodup := by
      unfold calls
      split
      · rename_i q _
        unfold QuorumRequest.calls
        rw [List.map_map]
        exact hnumbers q.request.plan
      · rw [List.map_map]
        exact hnumbers c.placement.replicas
    unfold allAnswered
    rw [List.map_map]
    exact htickets
  · obtain ⟨⟨ticket, id, verb⟩, hcall, rfl⟩ := List.mem_map.1 hd
    exact ⟨verb, hcall, fun a h => h⟩

theorem AnsweredFrom.genuine (h : c.AnsweredFrom v stores cs) (hq : c.routed? v = some q) :
    q.request.Genuine cs := by
  intro d hd
  obtain ⟨verb, hcall, -⟩ := h.served d hd
  obtain ⟨group, hget, -⟩ := (mem_calls_iff hq).1 hcall
  exact ⟨group, hget⟩

theorem AnsweredFrom.arrived (h : c.AnsweredFrom v stores cs) (hq : c.routed? v = some q) :
    q.request.Arrived cs := by
  refine ⟨h.nodup, fun d hd => ?_⟩
  obtain ⟨group, hget⟩ := h.genuine hq d hd
  exact (List.getElem?_eq_some_iff.1 hget).1

/-- **The calls behind an answer**: succeeded calls that give every unit its quorum, whose answers
have been merged. -/
theorem exists_backed (hfrom : c.AnsweredFrom v stores cs) (hq : c.routed? v = some q)
    (t : Telemetry) (h : (q.request.execute t cs).1 = .ok a) :
    ∃ S, q.request.Backed (fun u => c.placement.replicasOf (q.rowOf u)) q.request.policy.success cs S ∧
      a = (parts S).foldl q.request.merge q.request.empty := by
  have harr := hfrom.arrived hq
  obtain ⟨pre, post, rfl, rfl, hgood⟩ := QuorumRequest.of_execute_ok harr t h
  have hgen : q.request.Genuine pre := fun d hd =>
    hfrom.genuine hq d (List.mem_append_left post hd)
  -- calls that failed count for nothing
  have hbackers : ∀ u,
      q.request.backers (pre.filter fun d => d.result.isOk) u = q.request.backers pre u := by
    intro u
    ext id
    simp only [QuorumRequest.mem_backers, List.mem_filter]
    exact ⟨fun ⟨d, ⟨hd, _⟩, h⟩ => ⟨d, hd, h⟩, fun ⟨d, hd, hid, hcov, hok⟩ => ⟨d, ⟨hd, hok⟩, hid, hcov, hok⟩⟩
  refine ⟨pre.filter fun d => d.result.isOk, ⟨?_, ?_, fun u hu => ?_, fun u _ => ?_⟩, ?_⟩
  · exact List.filter_sublist.trans (List.sublist_append_left pre post)
  · exact fun d hd => (List.mem_filter.1 hd).2
  · rw [hbackers, QuorumRequest.card_backers q.ids_nodup harr.of_append.nodup hgen]
    exact hgood u hu
  · rw [hbackers]
    exact QuorumRequest.backers_subset q.plan_eq hgen
  · unfold parts
    rw [List.filterMap_filter]
    congr 1
    refine List.filterMap_congr fun d _ => ?_
    cases d.result <;> rfl

/-- What a group of keys is: those in rows of the replica. -/
theorem mem_group {κ : Type} {rowOf : κ → Bytes} {keys group : List κ}
    (h : (replica, group) ∈ c.placement.group rowOf keys) {k : κ} (hk : k ∈ group) :
    k ∈ keys ∧ replica ∈ c.placement.replicasOf (rowOf k) := by
  rw [(mem_groupByReplica_iff.1 h).2] at hk
  exact mem_ownKeys.1 hk

/-- **What each call behind an answer was**: a group of keys, read from the store of its replica. -/
theorem of_mem_parts (hfrom : c.AnsweredFrom v stores cs) (hq : c.routed? v = some q)
    (hsub : S.Sublist cs) {part : α} (hpart : part ∈ parts S) :
    ∃ id group, (id, group) ∈ q.request.plan ∧
      (Store.run (q.request.call group) (stores id)).1 = .ok part := by
  obtain ⟨d, hd, hres⟩ := List.mem_filterMap.1 hpart
  obtain ⟨verb, hcall, hok⟩ := hfrom.served d (hsub.subset hd)
  obtain ⟨group, hget, rfl⟩ := (mem_calls_iff hq).1 hcall
  refine ⟨d.replica, group, List.mem_of_getElem? hget, hok part ?_⟩
  cases hresult : d.result with
  | error e => rw [hresult] at hres; cases hres
  | ok b => rw [hresult] at hres; exact congrArg Except.ok (Option.some.inj hres)

/-- The answer of a replica that is behind a unit is among those merged. -/
theorem exists_part (hfrom : c.AnsweredFrom v stores cs) (hq : c.routed? v = some q)
    (hsub : S.Sublist cs) {u : q.υ} (hid : replica ∈ q.request.backers S u) :
    ∃ part ∈ parts S, ∃ group, u ∈ group.map q.request.unitOf ∧
      (Store.run (q.request.call group) (stores replica)).1 = .ok part := by
  obtain ⟨d, hd, rfl, hcov, hok⟩ := QuorumRequest.mem_backers.1 hid
  obtain ⟨⟨id', group⟩, hget, hunit⟩ := QuorumRequest.covers_iff.1 hcov
  obtain ⟨verb, hcall, hrun⟩ := hfrom.served d (hsub.subset hd)
  obtain ⟨group', hget', rfl⟩ := (mem_calls_iff hq).1 hcall
  obtain ⟨rfl, rfl⟩ := Prod.mk.inj (Option.some.inj (hget.symm.trans hget'))
  obtain ⟨part, hres⟩ := exists_of_isOk hok
  exact ⟨part, List.mem_filterMap.2 ⟨d, hd, by rw [hres]; rfl⟩, group, hunit, hrun part hres⟩

end Calls

section Reads

variable {s : Store} {table : TableName} {cell : Cell} {time ts : Timestamp} {x : Value}
  {cells stamps : ExtTreeMap Cell Timestamp} {part : ExtTreeMap Cell Value}
  {told : ExtTreeMap Cell (ExtTreeSet Timestamp)} {cs S : List (Completion (ExtTreeMap Cell Value))}
  {ds D : List (Completion (ExtTreeMap Cell Timestamp))}
  {es E : List (Completion (ExtTreeMap Cell (ExtTreeSet Timestamp)))}

/-- A replica that answers its call of a read of rows has each returned version, in a row of its
own. -/
theorem stored_of_call_getRows {rows : List Bytes} {columns : ColumnFilter} {group : List Bytes}
    (hplan : (replica, group) ∈ (c.getRows table rows columns time).plan)
    (hok : (Store.run ((c.getRows table rows columns time).call group) s).1 = .ok part)
    (hx : part[cell]? = some x) :
    (cell.row ∈ rows ∧ columns.keeps cell.column = true) ∧ x.timestamp < time ∧
      replica ∈ c.placement.replicasOf cell.row ∧
        s.version? table cell x.timestamp = some x.contents := by
  obtain ⟨⟨hrow, hkeep⟩, hlt, hversion⟩ := Store.stored_of_getRows hok hx
  obtain ⟨hkey, hid⟩ := mem_group hplan hrow
  exact ⟨⟨hkey, hkeep⟩, hlt, hid, hversion⟩

/-- A replica that answers its call of a read of cells has each returned version, in a row of its
own. -/
theorem stored_of_call_get {group : List (Cell × Timestamp)}
    (hplan : (replica, group) ∈ (c.get table cells).plan)
    (hok : (Store.run ((c.get table cells).call group) s).1 = .ok part)
    (hx : part[cell]? = some x) :
    ∃ time, cells[cell]? = some time ∧ x.timestamp < time ∧
      replica ∈ c.placement.replicasOf cell.row ∧
        s.version? table cell x.timestamp = some x.contents := by
  obtain ⟨time, hasked, hlt, hversion⟩ := Store.stored_of_get hok hx
  obtain ⟨hkey, hid⟩ := mem_group hplan (mem_of_getElem?_mapOfList hasked)
  exact ⟨time, ExtTreeMap.mem_toList_iff_getElem?_eq_some.1 hkey, hlt, hid, hversion⟩

/-- A replica that answers its call of a read of latest timestamps has the version at each, in a row
of its own. -/
theorem stored_of_call_getLatestTimestamps {group : List (Cell × Timestamp)}
    (hplan : (replica, group) ∈ (c.getLatestTimestamps table cells).plan)
    (hok : (Store.run ((c.getLatestTimestamps table cells).call group) s).1 = .ok stamps)
    (hts : stamps[cell]? = some ts) :
    ∃ time, cells[cell]? = some time ∧ ts < time ∧
      replica ∈ c.placement.replicasOf cell.row ∧ s.Holds table cell ts := by
  obtain ⟨time, hasked, hlt, hholds⟩ := Store.stored_of_getLatestTimestamps hok hts
  obtain ⟨hkey, hid⟩ := mem_group hplan (mem_of_getElem?_mapOfList hasked)
  exact ⟨time, ExtTreeMap.mem_toList_iff_getElem?_eq_some.1 hkey, hlt, hid, hholds⟩

/-- A replica that answers its call of a read of all timestamps has the version at each, in a row of
its own. -/
theorem stored_of_call_getAllTimestamps {cells : ExtTreeSet Cell} {group : List Cell}
    (hplan : (replica, group) ∈ (c.getAllTimestamps table cells time).plan)
    (hok : (Store.run ((c.getAllTimestamps table cells time).call group) s).1 = .ok told)
    (hts : ∃ stamps, told[cell]? = some stamps ∧ ts ∈ stamps) :
    cell ∈ cells ∧ ts < time ∧
      replica ∈ c.placement.replicasOf cell.row ∧ s.Holds table cell ts := by
  obtain ⟨hasked, hlt, hholds⟩ := (Store.mem_getAllTimestamps_iff hok).1 hts
  obtain ⟨hkey, hid⟩ := mem_group hplan (mem_setOfList.1 hasked)
  exact ⟨ExtTreeSet.mem_toList.1 hkey, hlt, hid, hholds⟩

/-- **What the answer of a call tells** the replica has, in a row of its own. -/
theorem holds_of_tells {α : Type} {v : Verb α} {q : c.Routed α} {group : List q.κ} {part : α}
    (hq : c.routed? v = some q) (hplan : (replica, group) ∈ q.request.plan)
    (hok : (Store.run (q.request.call group) s).1 = .ok part)
    (htells : v.Tells part table cell ts) :
    replica ∈ c.placement.replicasOf cell.row ∧ s.Holds table cell ts := by
  have hstored : ∀ {x : Value}, s.version? table cell x.timestamp = some x.contents →
      s.Holds table cell x.timestamp := by
    intro x hversion
    unfold Store.Holds
    rw [hversion]
    rfl
  cases v with
  | getRows =>
    cases hq
    obtain ⟨rfl, x, hx, rfl⟩ := htells
    obtain ⟨-, -, hid, hversion⟩ := stored_of_call_getRows hplan hok hx
    exact ⟨hid, hstored hversion⟩
  | get =>
    cases hq
    obtain ⟨rfl, x, hx, rfl⟩ := htells
    obtain ⟨_, -, -, hid, hversion⟩ := stored_of_call_get hplan hok hx
    exact ⟨hid, hstored hversion⟩
  | getLatestTimestamps =>
    cases hq
    obtain ⟨rfl, hts⟩ := htells
    obtain ⟨_, -, -, hheld⟩ := stored_of_call_getLatestTimestamps hplan hok hts
    exact hheld
  | getAllTimestamps =>
    cases hq
    obtain ⟨rfl, hts⟩ := htells
    exact (stored_of_call_getAllTimestamps hplan hok hts).2.2
  | _ => exact htells.elim

/-- **What a merged answer tells** one of its parts tells. -/
theorem exists_tells_of_foldl {α : Type} {v : Verb α} {q : c.Routed α} {parts : List α}
    (hq : c.routed? v = some q)
    (htells : v.Tells (parts.foldl q.request.merge q.request.empty) table cell ts) :
    ∃ part ∈ parts, v.Tells part table cell ts := by
  cases v with
  | getRows | get =>
    cases hq
    obtain ⟨hsame, x, hx, hts⟩ := htells
    obtain ⟨⟨part, hpart, hx⟩, -⟩ :=
      (Merge.isPointwiseMax_foldl Merge.takesGreater_newer parts cell x).1 hx
    exact ⟨part, hpart, hsame, x, hx, hts⟩
  | getLatestTimestamps =>
    cases hq
    obtain ⟨hsame, hts⟩ := htells
    obtain ⟨⟨part, hpart, hts⟩, -⟩ :=
      (Merge.isPointwiseMax_foldl Merge.takesGreater_laterTimestamp parts cell ts).1 hts
    exact ⟨part, hpart, hsame, hts⟩
  | getAllTimestamps =>
    cases hq
    obtain ⟨hsame, hts⟩ := htells
    rcases Merge.mem_foldl_union.1 hts with ⟨stamps, hstamps, -⟩ | ⟨part, hpart, hts⟩
    · cases ExtTreeMap.getElem?_empty.symm.trans hstamps
    · exact ⟨part, hpart, hsame, hts⟩
  | _ => exact htells.elim

/-- Where a row has no more replicas than configured, each of them has to answer a read of all
timestamps, and tells of all that it has. -/
theorem exists_part_getAllTimestamps {cells : ExtTreeSet Cell}
    (hfrom : c.AnsweredFrom (.getAllTimestamps table cells time) stores es)
    (hE : (c.getAllTimestamps table cells time).Backed (fun cell => c.placement.replicasOf cell.row)
      c.factors.replication es E) (hcell : cell ∈ cells)
    (hplace : (c.placement.replicasOf cell.row).toFinset.card ≤ c.factors.replication)
    (hlt : ts < time) (hid : replica ∈ c.placement.replicasOf cell.row)
    (hholds : (stores replica).Holds table cell ts) :
    ∃ part ∈ parts E, ∃ s, part[cell]? = some s ∧ ts ∈ s := by
  have hq : c.routed? (.getAllTimestamps table cells time) = some _ := rfl
  have hunit := ExtTreeSet.mem_toList.2 hcell
  -- the quorum of this read is the replication factor, so it is all replicas of the row
  have hall := Finset.eq_of_subset_of_card_le (hE.placed cell hunit)
    (hplace.trans (hE.quorum cell hunit))
  obtain ⟨part, hpart, group, hkey, hok⟩ :=
    exists_part hfrom hq hE.sublist (hall ▸ List.mem_toFinset.2 hid)
  have hkey : cell ∈ group.map id := hkey
  rw [List.map_id] at hkey
  exact ⟨part, hpart, (Store.mem_getAllTimestamps_iff hok).2 ⟨mem_setOfList.2 hkey, hlt, hholds⟩⟩

/-- **What point reads return**, whatever becomes of each call and in whatever order the calls
finish. An answered read of latest versions is the pointwise maximum of the answers of some
succeeded calls, which for each unit have reached a read quorum of replicas of its row; it holds only
cells asked for, each with a version from before the time of the read that is stored at a replica of
its row. An answered read of all timestamps, of rows that have no more replicas than configured, has
for each cell asked for the timestamps from before the time of the read at any replica of its row, and
leaves out the cells that have none. -/
theorem reads_merge_replicas (c : Coordinator) (stores : ReplicaId → Store) (table : TableName)
    (t : Telemetry) :
    (∀ (rows : List Bytes) (columns : ColumnFilter) (time : Timestamp)
      (cs : List (Completion (ExtTreeMap Cell Value))) (a : ExtTreeMap Cell Value),
      c.AnsweredFrom (.getRows table rows columns time) stores cs →
      ((c.getRows table rows columns time).execute t cs).1 = .ok a →
      (∃ S, (c.getRows table rows columns time).Backed c.placement.replicasOf c.factors.read cs S ∧
        Merge.IsPointwiseMax (parts S) a) ∧
      ∀ (cell : Cell) (x : Value), a[cell]? = some x →
        (cell.row ∈ rows ∧ columns.keeps cell.column = true) ∧ x.timestamp < time ∧
          ∃ id ∈ c.placement.replicasOf cell.row,
            (stores id).version? table cell x.timestamp = some x.contents) ∧
    (∀ (cells : ExtTreeMap Cell Timestamp) (cs : List (Completion (ExtTreeMap Cell Value)))
      (a : ExtTreeMap Cell Value), c.AnsweredFrom (.get table cells) stores cs →
      ((c.get table cells).execute t cs).1 = .ok a →
      (∃ S, (c.get table cells).Backed (fun cell => c.placement.replicasOf cell.row) c.factors.read cs S ∧
        Merge.IsPointwiseMax (parts S) a) ∧
      ∀ (cell : Cell) (x : Value), a[cell]? = some x →
        ∃ time, cells[cell]? = some time ∧ x.timestamp < time ∧
          ∃ id ∈ c.placement.replicasOf cell.row,
            (stores id).version? table cell x.timestamp = some x.contents) ∧
    (∀ (cells : ExtTreeMap Cell Timestamp) (cs : List (Completion (ExtTreeMap Cell Timestamp)))
      (a : ExtTreeMap Cell Timestamp), c.AnsweredFrom (.getLatestTimestamps table cells) stores cs →
      ((c.getLatestTimestamps table cells).execute t cs).1 = .ok a →
      (∃ S, (c.getLatestTimestamps table cells).Backed (fun cell => c.placement.replicasOf cell.row)
          c.factors.read cs S ∧
        Merge.IsPointwiseMax (parts S) a) ∧
      ∀ (cell : Cell) (ts : Timestamp), a[cell]? = some ts →
        ∃ time, cells[cell]? = some time ∧ ts < time ∧
          ∃ id ∈ c.placement.replicasOf cell.row, (stores id).Holds table cell ts) ∧
    (∀ (cells : ExtTreeSet Cell) (time : Timestamp)
      (cs : List (Completion (ExtTreeMap Cell (ExtTreeSet Timestamp))))
      (a : ExtTreeMap Cell (ExtTreeSet Timestamp)),
      c.AnsweredFrom (.getAllTimestamps table cells time) stores cs →
      (∀ cell : Cell, cell ∈ cells →
        (c.placement.replicasOf cell.row).toFinset.card ≤ c.factors.replication) →
      ((c.getAllTimestamps table cells time).execute t cs).1 = .ok a →
      (∀ (cell : Cell) (ts : Timestamp), (∃ s, a[cell]? = some s ∧ ts ∈ s) ↔
        cell ∈ cells ∧ ts < time ∧
          ∃ id ∈ c.placement.replicasOf cell.row, (stores id).Holds table cell ts) ∧
      ∀ (cell : Cell) (s : ExtTreeSet Timestamp), a[cell]? = some s → ∃ ts, ts ∈ s) := by
  refine ⟨?_, ?_, ?_, ?_⟩
  · intro rows columns time cs a hfrom h
    have hq : c.routed? (.getRows table rows columns time) = some _ := rfl
    obtain ⟨S, hS, rfl⟩ := exists_backed hfrom hq t h
    have hmax := Merge.isPointwiseMax_foldl Merge.takesGreater_newer (parts S)
    refine ⟨⟨S, hS, hmax⟩, fun cell x hx => ?_⟩
    obtain ⟨⟨part, hpart, hx⟩, -⟩ := (hmax cell x).1 hx
    obtain ⟨id, group, hplan, hok⟩ := of_mem_parts hfrom hq hS.sublist hpart
    obtain ⟨hasked, hlt, hid, hversion⟩ := stored_of_call_getRows hplan hok hx
    exact ⟨hasked, hlt, id, hid, hversion⟩
  · intro cells cs a hfrom h
    have hq : c.routed? (.get table cells) = some _ := rfl
    obtain ⟨S, hS, rfl⟩ := exists_backed hfrom hq t h
    have hmax := Merge.isPointwiseMax_foldl Merge.takesGreater_newer (parts S)
    refine ⟨⟨S, hS, hmax⟩, fun cell x hx => ?_⟩
    obtain ⟨⟨part, hpart, hx⟩, -⟩ := (hmax cell x).1 hx
    obtain ⟨id, group, hplan, hok⟩ := of_mem_parts hfrom hq hS.sublist hpart
    obtain ⟨time, hasked, hlt, hid, hversion⟩ := stored_of_call_get hplan hok hx
    exact ⟨time, hasked, hlt, id, hid, hversion⟩
  · intro cells cs a hfrom h
    have hq : c.routed? (.getLatestTimestamps table cells) = some _ := rfl
    obtain ⟨S, hS, rfl⟩ := exists_backed hfrom hq t h
    have hmax := Merge.isPointwiseMax_foldl Merge.takesGreater_laterTimestamp (parts S)
    refine ⟨⟨S, hS, hmax⟩, fun cell ts hts => ?_⟩
    obtain ⟨⟨part, hpart, hts⟩, -⟩ := (hmax cell ts).1 hts
    obtain ⟨id, group, hplan, hok⟩ := of_mem_parts hfrom hq hS.sublist hpart
    obtain ⟨time, hasked, hlt, hid, hholds⟩ := stored_of_call_getLatestTimestamps hplan hok hts
    exact ⟨time, hasked, hlt, id, hid, hholds⟩
  · intro cells time cs a hfrom hplace h
    have hq : c.routed? (.getAllTimestamps table cells time) = some _ := rfl
    obtain ⟨S, hS, rfl⟩ := exists_backed hfrom hq t h
    refine ⟨fun cell ts => Merge.mem_foldl_union.trans ⟨?_, ?_⟩, fun cell s hs => ?_⟩
    · rintro (⟨s, hs, -⟩ | ⟨part, hpart, hts⟩)
      · cases ExtTreeMap.getElem?_empty.symm.trans hs
      · obtain ⟨id, group, hplan, hok⟩ := of_mem_parts hfrom hq hS.sublist hpart
        obtain ⟨hasked, hlt, hid, hholds⟩ := stored_of_call_getAllTimestamps hplan hok hts
        exact ⟨hasked, hlt, id, hid, hholds⟩
    · rintro ⟨hcell, hlt, id, hid, hholds⟩
      exact Or.inr (exists_part_getAllTimestamps hfrom hS hcell (hplace cell hcell) hlt hid hholds)
    · -- what is merged for a cell has what some replica told of it
      have hkey : cell ∈ (parts S).foldl Merge.allTimestamps ∅ :=
        ExtTreeMap.mem_iff_isSome_getElem?.2 (Option.isSome_iff_exists.2 ⟨s, hs⟩)
      obtain ⟨part, hpart, hcell⟩ :=
        (Merge.mem_foldl_joinWith.1 hkey).resolve_left ExtTreeMap.not_mem_empty
      obtain ⟨s', hs'⟩ := Option.isSome_iff_exists.1 (ExtTreeMap.mem_iff_isSome_getElem?.1 hcell)
      obtain ⟨id, group, -, hok⟩ := of_mem_parts hfrom hq hS.sublist hpart
      obtain ⟨ts, hts⟩ := Store.nonempty_of_getAllTimestamps hok hs'
      obtain ⟨s'', hs'', hmem⟩ := Merge.mem_foldl_union.2 (Or.inr ⟨part, hpart, s', hs', hts⟩)
      exact ⟨ts, Option.some.inj (hs''.symm.trans hs) ▸ hmem⟩

end Reads

section TwoTokens

/-- The stores of two replicas with different versions of one cell. -/
def differingStores (id : ReplicaId) : Store where
  tables := (∅ : ExtTreeMap TableName Table).insert "t"
    { maxValueSize := 8
      data := if id = "a" then ({} : Memtable).put ⟨[1], [2]⟩ 5 [7] else ({} : Memtable).put ⟨[1], [2]⟩ 6 [8] }

/-- The later of the two versions is read, and both timestamps are. -/
theorem reads_twoTokens : ∃ (c : Coordinator) (a : ExtTreeMap Cell Value)
    (b : ExtTreeMap Cell (ExtTreeSet Timestamp)),
    c = twoTokens
      { replication := 2, read := 2, write := 1
        read_pos := Nat.two_pos, read_le := Nat.one_lt_two
        write_pos := Nat.one_pos, write_le := Nat.two_pos } ∧
    ((c.get "t" ((∅ : ExtTreeMap Cell Timestamp).insert ⟨[1], [2]⟩ 9)).execute {}
      (allAnswered c readCell differingStores)).1 = .ok a ∧
    (∃ S, (c.get "t" ((∅ : ExtTreeMap Cell Timestamp).insert ⟨[1], [2]⟩ 9)).Backed
        (fun cell => c.placement.replicasOf cell.row) c.factors.read
        (allAnswered c readCell differingStores) S ∧
      Merge.IsPointwiseMax (parts S) a) ∧
    ((c.getAllTimestamps "t" ((∅ : ExtTreeSet Cell).insert ⟨[1], [2]⟩) 9).execute {}
      (allAnswered c (.getAllTimestamps "t" ((∅ : ExtTreeSet Cell).insert ⟨[1], [2]⟩) 9)
        differingStores)).1 = .ok b ∧
    ∀ (cell : Cell) (ts : Timestamp), (∃ s, b[cell]? = some s ∧ ts ∈ s) ↔
      cell ∈ (∅ : ExtTreeSet Cell).insert ⟨[1], [2]⟩ ∧ ts < 9 ∧
        ∃ id ∈ c.placement.replicasOf cell.row, (differingStores id).Holds "t" cell ts := by
  let c := twoTokens { replication := 2, read := 2, write := 1 }
  obtain ⟨-, hget, -, hall⟩ := reads_merge_replicas c differingStores "t" {}
  have hplace : ∀ cell : Cell, cell ∈ (∅ : ExtTreeSet Cell).insert ⟨[1], [2]⟩ →
      (c.placement.replicasOf cell.row).toFinset.card ≤ c.factors.replication := by
    intro cell hcell
    rcases ExtTreeSet.mem_insert.1 hcell with heq | hnone
    · rw [← LawfulEqOrd.eq_of_compare heq]
      decide
    · exact absurd hnone ExtTreeSet.not_mem_empty
  have hread : ∃ a, ((c.get "t" ((∅ : ExtTreeMap Cell Timestamp).insert ⟨[1], [2]⟩ 9)).execute {}
      (allAnswered c readCell differingStores)).1 = .ok a := exists_of_isOk (by decide +kernel)
  have hstamps : ∃ b, ((c.getAllTimestamps "t" ((∅ : ExtTreeSet Cell).insert ⟨[1], [2]⟩) 9).execute {}
      (allAnswered c (.getAllTimestamps "t" ((∅ : ExtTreeSet Cell).insert ⟨[1], [2]⟩) 9)
        differingStores)).1 = .ok b := exists_of_isOk (by decide +kernel)
  obtain ⟨a, ha⟩ := hread
  obtain ⟨b, hb⟩ := hstamps
  refine ⟨c, a, b, rfl, ha, ?_, hb, ?_⟩
  · exact (hget _ _ a (answeredFrom_allAnswered c readCell differingStores) ha).1
  · exact (hall _ _ _ b (answeredFrom_allAnswered c _ differingStores) hplace hb).1

end TwoTokens

end Coordinator

end QuorumStore
