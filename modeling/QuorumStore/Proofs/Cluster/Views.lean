import QuorumStore.Proofs.Cluster.PointReads
import QuorumStore.Proofs.Quorum.Reads
import QuorumStore.Proofs.Views

/-!
# The views of a read agree

A coordinator can be asked for the latest versions of cells, for their timestamps, and, of a range,
for whole histories. The calls are planned apart, the answers are projected by the replicas and merged
by the coordinator, and still they agree: whatever the replicas hold, each answer shows the versions
that the same replicas have in sight.

* `Coordinator.heardOf`: the replicas whose calls have succeeded.
* `Coordinator.viewsAgree_of_parts`: **point reads whose calls succeed on the same replicas agree.**
* `Store.depicts_payload?`: what a range read gives for a column shows the versions in sight.
* `RowsAgree`: the rows of three range reads agree.
* `Run.views_agree`: **the three views of a read agree**, of cells and of ranges.
-/

namespace QuorumStore

open Std Std.Do

variable {stores : ReplicaId → Store} {table : TableName} {t : Timestamp}

namespace Coordinator

variable {k : Coordinator} {cell : Cell}

section Calls

variable {α τ : Type}

/-- The replicas whose calls have succeeded. -/
def heardOf (cs : List (Completion α)) : List ReplicaId :=
  (cs.filter fun d => d.result.isOk).map Completion.replica

theorem mem_heardOf {cs : List (Completion α)} {id : ReplicaId} :
    id ∈ heardOf cs ↔ ∃ d ∈ cs, d.result.isOk = true ∧ d.replica = id := by
  unfold heardOf
  simp only [List.mem_map, List.mem_filter, and_assoc]

variable {v : Verb (ExtTreeMap Cell τ)} {q : k.Routed (ExtTreeMap Cell τ)}
  {cs : List (Completion (ExtTreeMap Cell τ))} {view : Set Value → τ → Prop} {join : τ → τ → τ}
  {sight : ReplicaId → Set Value}

/-- **The merged answers of the calls that succeed** show what their replicas have in sight. -/
theorem depicts_parts (hjoin : ∀ {S T x y}, view S x → view T y → view (S ∪ T) (join x y))
    (hfrom : k.AnsweredFrom v stores cs) (hq : k.routed? v = some q)
    (hcall : ∀ id group, (id, group) ∈ q.request.plan → Depicts view (sight id)
      ((Store.run (q.request.call group) (stores id)).1.toOption.bind (·[cell]?))) :
    Depicts view {w | ∃ id ∈ heardOf cs, w ∈ sight id}
      ((parts cs).foldl (Merge.joinWith join) ∅)[cell]? := by
  have hanswers : Depicts view {w | ∃ d ∈ cs, w ∈ {w | d.result.isOk = true ∧ w ∈ sight d.replica}}
      ((parts cs).foldl (Merge.joinWith join) ∅)[cell]? := by
    refine Depicts.foldl_answers hjoin fun d hd => ?_
    refine depicts_asked (fun hok => ?_) fun hfailed => ?_
    · -- a call that succeeds is answered by the store of its replica
      obtain ⟨verb, hcalls, hanswer⟩ := hfrom.served d hd
      obtain ⟨group, hget, rfl⟩ := (mem_calls_iff hq).1 hcalls
      obtain ⟨part, hpart⟩ := exists_of_isOk hok
      have hsight := hcall d.replica group (List.mem_of_getElem? hget)
      rw [hanswer part hpart] at hsight
      rw [hpart]
      exact hsight
    · cases hresult : d.result with
      | ok part => exact absurd (by rw [hresult]; rfl) hfailed
      | error e => rfl
  have hsame : {w | ∃ d ∈ cs, w ∈ {w | d.result.isOk = true ∧ w ∈ sight d.replica}} =
      {w | ∃ id ∈ heardOf cs, w ∈ sight id} := by
    ext w
    simp only [Set.mem_ofPred_eq, mem_heardOf]
    constructor
    · rintro ⟨d, hd, hok, hw⟩
      exact ⟨d.replica, ⟨d, hd, hok, rfl⟩, hw⟩
    · rintro ⟨_, ⟨d, hd, hok, rfl⟩, hw⟩
      exact ⟨d, hd, hok, hw⟩
  rwa [hsame] at hanswers

end Calls

section PointReads

variable {cells : ExtTreeSet Cell} {cs : List (Completion (ExtTreeMap Cell Value))}
  {ds : List (Completion (ExtTreeMap Cell Timestamp))}
  {es : List (Completion (ExtTreeMap Cell (ExtTreeSet Timestamp)))}

/-- What is asked of a replica for a read of cells at one time. -/
theorem mem_group_timesAt (cell : Cell) {id : ReplicaId} {group : List (Cell × Timestamp)}
    (h : (id, group) ∈ k.placement.group (fun e => e.1.row) (timesAt cells t).toList) :
    (cell ∈ ExtTreeMap.ofList group compare ↔
      cell ∈ cells ∧ id ∈ k.placement.replicasOf cell.row) ∧
    ∀ t', (ExtTreeMap.ofList group compare)[cell]? = some t' → t' = t := by
  obtain rfl := (mem_groupByReplica_iff.1 h).2
  constructor
  · simp only [mem_mapOfList, List.mem_map, mem_ownKeys, ExtTreeMap.mem_toList_iff_getElem?_eq_some,
      Prod.exists]
    constructor
    · rintro ⟨c, t', ⟨hget, hid⟩, rfl⟩
      exact ⟨mem_timesAt.1 (ExtTreeMap.mem_iff_isSome_getElem?.2 (by rw [hget]; rfl)), hid⟩
    · rintro ⟨hcell, hid⟩
      obtain ⟨t', hget⟩ := Option.isSome_iff_exists.1
        (ExtTreeMap.mem_iff_isSome_getElem?.1 (mem_timesAt.2 hcell))
      exact ⟨cell, t', ⟨hget, hid⟩, rfl⟩
  · intro t' hget
    have hkey := (mem_ownKeys.1 (mem_of_getElem?_mapOfList hget)).1
    exact eq_of_getElem?_timesAt (ExtTreeMap.mem_toList_iff_getElem?_eq_some.1 hkey)

/-- **Point reads whose calls succeed on the same replicas agree**, whatever the replicas hold, whatever
becomes of their calls, and in whatever order these finish. -/
theorem viewsAgree_of_parts (hcs : k.AnsweredFrom (.get table (timesAt cells t)) stores cs)
    (hds : k.AnsweredFrom (.getLatestTimestamps table (timesAt cells t)) stores ds)
    (hes : k.AnsweredFrom (.getAllTimestamps table cells t) stores es)
    (h₂ : ∀ id, id ∈ heardOf cs ↔ id ∈ heardOf ds) (h₃ : ∀ id, id ∈ heardOf cs ↔ id ∈ heardOf es) :
    ViewsAgree ((parts cs).foldl Merge.latestValues ∅) ((parts ds).foldl Merge.latestTimestamps ∅)
      ((parts es).foldl Merge.allTimestamps ∅) := by
  refine viewsAgree_of_depicts
    (fun cell id => {v | (cell ∈ cells ∧ id ∈ k.placement.replicasOf cell.row) ∧
      v ∈ (stores id).inSight table cell t}) h₂ h₃ (fun cell => ?_) (fun cell => ?_) fun cell => ?_
  · refine depicts_parts (GreatestOf.union Merge.takesGreater_newer) hcs rfl fun id group hgroup => ?_
    obtain ⟨hmem, htime⟩ := mem_group_timesAt cell hgroup
    rw [← hmem]
    exact (stores id).depicts_get table cell htime
  · refine depicts_parts (GreatestOf.union Merge.takesGreater_laterTimestamp) hds rfl
      fun id group hgroup => ?_
    obtain ⟨hmem, htime⟩ := mem_group_timesAt cell hgroup
    rw [← hmem]
    exact (stores id).depicts_getLatestTimestamps table cell htime
  · refine depicts_parts AllOf.union hes rfl fun id group hgroup => ?_
    have hmem : cell ∈ ExtTreeSet.ofList group compare ↔
        cell ∈ cells ∧ id ∈ k.placement.replicasOf cell.row := by
      obtain rfl := (mem_groupByReplica_iff.1 hgroup).2
      rw [mem_setOfList, mem_ownKeys, ExtTreeSet.mem_toList]
    rw [← hmem]
    exact (stores id).depicts_getAllTimestamps table (ExtTreeSet.ofList group compare) t cell

end PointReads

end Coordinator

section Ranges

variable {τ σ : Type} {range : RowRange} {key column : Bytes}

/-- **What a range read gives for a column** shows the versions in sight, if the row and the column
are selected. -/
theorem Store.depicts_payload? (s : Store) (read : RangeRead τ) (range : RowRange)
    (key column : Bytes) : Depicts read.projection.view
      {v | (range.contains key = true ∧ range.columns.keeps column = true) ∧
        v ∈ s.inSight read.table ⟨key, column⟩ read.time}
      (s.payload? read range key column) := by
  unfold payload? Memtable.payload?
  refine depicts_asked (fun hselected => ?_) fun hout => ?_
  · simp only [if_pos hselected]
    exact depicts_cell read.projection s read.table ⟨key, column⟩ read.time
  · simp only [if_neg hout]
    cases s.tables[read.table]? <;> rfl

/-- The versions that the replicas of a slice have in sight. -/
def SubRange.inSight (sub : SubRange) (stores : ReplicaId → Store) (table : TableName)
    (t : Timestamp) (key column : Bytes) : Set Value :=
  {v | ∃ id ∈ sub.replicas,
    (sub.range.contains key = true ∧ sub.range.columns.keeps column = true) ∧
      v ∈ (stores id).inSight table ⟨key, column⟩ t}

/-- **What the replicas of a slice give for a column**, joined, shows what they have in sight. -/
theorem SubRange.depicts_joinAt (sub : SubRange) (read : RangeRead τ) (key column : Bytes) :
    Depicts read.projection.view (sub.inSight stores read.table read.time key column)
      (joinAt read.projection.merge
        (sub.replicas.map fun id => (stores id).payload? read sub.range) key column) := by
  unfold joinAt SubRange.inSight
  rw [List.foldl_map]
  exact Depicts.foldl_merge read.projection.view_merge
    fun id _ => (stores id).depicts_payload? read sub.range key column

/-- What is read of a plan: the merges of its slices. -/
def MergedSlices (stores : ReplicaId → Store) (read : RangeRead τ) (plan : List SubRange)
    (merged : List (List (Row τ))) : Prop :=
  List.Forall₂ (fun parts rows => Joins read.projection.merge parts.flatten rows)
    (plan.map fun sub => sub.replicas.map fun id => (stores id).rows read sub.range) merged

/-- **Two reads of one plan** have the same rows and columns, with payloads that are related as
payloads that show the same versions are. -/
theorem MergedSlices.related {R : τ → σ → Prop} {p : Projection τ} {p' : Projection σ}
    {plan : List SubRange} {merged : List (List (Row τ))} {merged' : List (List (Row σ))}
    (h : MergedSlices stores ⟨p, table, t⟩ plan merged)
    (h' : MergedSlices stores ⟨p', table, t⟩ plan merged')
    (hrel : ∀ S a b, Depicts p.view S a → Depicts p'.view S b → Option.Rel R a b) :
    List.Forall₂ (Row.Related R) merged.flatten merged'.flatten := by
  refine List.rel_flatten ?_
  unfold MergedSlices at h h'
  rw [List.forall₂_map_left_iff] at h h'
  induction h generalizing merged' with
  | nil =>
    cases h'
    exact .nil
  | cons hrows _ ih =>
    cases h' with
    | cons hrows' hrest' =>
      refine .cons ?_ (ih hrest')
      exact (SubRange.tabulates hrows).related (SubRange.tabulates hrows') fun key column =>
        hrel _ _ _ (SubRange.depicts_joinAt _ ⟨p, table, t⟩ key column)
          (SubRange.depicts_joinAt _ ⟨p', table, t⟩ key column)

end Ranges

/-- The rows of three range reads agree: they have the same keys and columns, each latest value is the
greatest of the history of its column, and all timestamps of a column are those of its history. -/
structure RowsAgree (values : List (Row Value)) (histories : List (Row (ExtTreeSet Value)))
    (stamps : List (Row (ExtTreeSet Timestamp))) : Prop where
  values : List.Forall₂ (Row.Related fun v history => history.max? = some v) values histories
  stamps : List.Forall₂ (Row.Related fun stamps history => stamps = timestampsOf history) stamps
    histories

/-- A range read of all rows ends with `rows` and leaves the cluster calm. -/
def Cluster.Drains {τ : Type} (k : Coordinator) (ids : List ReplicaId) (stores : ReplicaId → Store)
    (read : RangeRead τ) (range : RowRange) (rows : List (Row τ)) : Prop :=
  ∀ c : Cluster, c.Calm k ids stores → ∀ limit, rows.length < limit → ∃ c',
    (coordinatorService.readRange limit read.projection read.table range read.time).run.run c =
      (.ok (.ok rows), c') ∧ c'.Calm k ids stores

theorem MergedSlices.drains {τ : Type} {k : Coordinator} {ids : List ReplicaId} {read : RangeRead τ}
    {range : RowRange} {merged : List (List (Row τ))}
    (h : MergedSlices stores read (k.placement.planRange range) merged)
    (hids : ∀ sub ∈ k.placement.planRange range, ∀ id ∈ sub.replicas, id ∈ ids) :
    Cluster.Drains k ids stores read range merged.flatten := by
  intro c hcalm limit hlimit
  obtain ⟨result, c', hrun, rfl, hcalm'⟩ :=
    Run.run_of_triple (Run.readRange_of_yields (Run.plan_yields hids h) limit) hcalm
  rw [List.take_of_length_le (Nat.le_of_lt hlimit)] at hrun
  exact ⟨c', hrun, hcalm'⟩

/-- **The three views of a read agree**, whatever the replicas hold. Point reads agree that are
answered by the same replicas, whatever each of these is asked for, and so do those of a coordinator
whose calls succeed on the same replicas. Range reads agree on a calm cluster, however its rows are
placed. -/
theorem Run.views_agree {k : Coordinator} {ids : List ReplicaId} {range : RowRange}
    (hids : ∀ sub ∈ k.placement.planRange range, ∀ id ∈ sub.replicas, id ∈ ids)
    (stores : ReplicaId → Store) (table : TableName) (t : Timestamp) :
    (∀ (asked : ReplicaId → ExtTreeSet Cell) (l₁ l₂ l₃ : List ReplicaId),
      (∀ id, id ∈ l₁ ↔ id ∈ l₂) → (∀ id, id ∈ l₁ ↔ id ∈ l₃) →
      ViewsAgree
        ((answersOf stores (fun id => .get table (timesAt (asked id) t)) l₁).foldl
          Merge.latestValues ∅)
        ((answersOf stores (fun id => .getLatestTimestamps table (timesAt (asked id) t)) l₂).foldl
          Merge.latestTimestamps ∅)
        ((answersOf stores (fun id => .getAllTimestamps table (asked id) t) l₃).foldl
          Merge.allTimestamps ∅)) ∧
    (∀ (cells : ExtTreeSet Cell) (cs : List (Completion (ExtTreeMap Cell Value)))
      (ds : List (Completion (ExtTreeMap Cell Timestamp)))
      (es : List (Completion (ExtTreeMap Cell (ExtTreeSet Timestamp)))),
      k.AnsweredFrom (.get table (timesAt cells t)) stores cs →
      k.AnsweredFrom (.getLatestTimestamps table (timesAt cells t)) stores ds →
      k.AnsweredFrom (.getAllTimestamps table cells t) stores es →
      (∀ id, id ∈ Coordinator.heardOf cs ↔ id ∈ Coordinator.heardOf ds) →
      (∀ id, id ∈ Coordinator.heardOf cs ↔ id ∈ Coordinator.heardOf es) →
      ViewsAgree ((Coordinator.parts cs).foldl Merge.latestValues ∅)
        ((Coordinator.parts ds).foldl Merge.latestTimestamps ∅)
        ((Coordinator.parts es).foldl Merge.allTimestamps ∅)) ∧
    ∃ values histories stamps, RowsAgree values histories stamps ∧
      Cluster.Drains k ids stores ⟨.latest, table, t⟩ range values ∧
      Cluster.Drains k ids stores ⟨.history, table, t⟩ range histories ∧
      Cluster.Drains k ids stores ⟨.timestamps, table, t⟩ range stamps := by
  refine ⟨fun asked l₁ l₂ l₃ => viewsAgree_of_same, fun cells cs ds es =>
    Coordinator.viewsAgree_of_parts, ?_⟩
  have hmerged : ∀ {τ : Type} (p : Projection τ), ∃ merged,
      MergedSlices stores ⟨p, table, t⟩ (k.placement.planRange range) merged :=
    fun p => Joins.exists_each p.merge _
  obtain ⟨values, hvalues⟩ := hmerged .latest
  obtain ⟨histories, hhistories⟩ := hmerged .history
  obtain ⟨stamps, hstamps⟩ := hmerged .timestamps
  refine ⟨values.flatten, histories.flatten, stamps.flatten, ⟨?_, ?_⟩, hvalues.drains hids,
    hhistories.drains hids, hstamps.drains hids⟩
  · exact hvalues.related hhistories fun _ _ _ hvalue hhistory => hvalue.rel_history hhistory
  · exact hstamps.related hhistories fun _ _ _ hstamp hhistory => hstamp.rel_image hhistory

section Pair

/-- The cell of which two replicas hold different values. -/
def pairCells : ExtTreeSet Cell := ExtTreeSet.ofList [⟨[80], [1]⟩] compare

/-- Two replicas that hold different values of a cell answer in different orders, and one of them
twice; then both are read through their coordinator. -/
theorem views_pair :
    ViewsAgree
      ((answersOf pairStores (fun _ => .get "t" (timesAt pairCells 9)) ["a", "b"]).foldl
        Merge.latestValues ∅)
      ((answersOf pairStores (fun _ => .getLatestTimestamps "t" (timesAt pairCells 9))
        ["b", "a"]).foldl Merge.latestTimestamps ∅)
      ((answersOf pairStores (fun _ => .getAllTimestamps "t" pairCells 9) ["b", "a", "b"]).foldl
        Merge.allTimestamps ∅) ∧
    ViewsAgree
      ((Coordinator.parts (pairCoordinator.allAnswered (.get "t" (timesAt pairCells 9))
        pairStores)).foldl Merge.latestValues ∅)
      ((Coordinator.parts (pairCoordinator.allAnswered (.getLatestTimestamps "t"
        (timesAt pairCells 9)) pairStores)).foldl Merge.latestTimestamps ∅)
      ((Coordinator.parts (pairCoordinator.allAnswered (.getAllTimestamps "t" pairCells 9)
        pairStores)).foldl Merge.allTimestamps ∅) ∧
    ∃ values histories stamps, RowsAgree values histories stamps ∧ ∃ c₁ c₂ c₃,
      (coordinatorService.readRange (values.length + 1) .latest "t" .all 9).run.run pair =
        (.ok (.ok values), c₁) ∧
      (coordinatorService.readRange (histories.length + 1) .history "t" .all 9).run.run c₁ =
        (.ok (.ok histories), c₂) ∧
      (coordinatorService.readRange (stamps.length + 1) .timestamps "t" .all 9).run.run c₂ =
        (.ok (.ok stamps), c₃) := by
  have hids : ∀ sub ∈ pairCoordinator.placement.planRange .all, ∀ id ∈ sub.replicas,
      id ∈ Ring.threeTokens.replicas := by decide
  obtain ⟨hsame, hparts, values, histories, stamps, hrows, hvalues, hhistories, hstamps⟩ :=
    Run.views_agree hids pairStores "t" 9
  have hboth : ∀ id : ReplicaId, id ∈ ["a", "b"] ↔ id ∈ ["b", "a", "b"] := by simp [or_comm]
  have hget : Coordinator.heardOf
      (pairCoordinator.allAnswered (.get "t" (timesAt pairCells 9)) pairStores) = ["a", "b"] := by
    decide
  have hlatest : Coordinator.heardOf (pairCoordinator.allAnswered (.getLatestTimestamps "t"
      (timesAt pairCells 9)) pairStores) = ["a", "b"] := by
    decide
  have hall : Coordinator.heardOf
      (pairCoordinator.allAnswered (.getAllTimestamps "t" pairCells 9) pairStores) = ["a", "b"] := by
    decide
  refine ⟨hsame _ _ _ _ (by simp [or_comm]) hboth, ?_, values, histories, stamps, hrows, ?_⟩
  · exact hparts pairCells _ _ _ (Coordinator.answeredFrom_allAnswered _ _ _)
      (Coordinator.answeredFrom_allAnswered _ _ _) (Coordinator.answeredFrom_allAnswered _ _ _)
      (fun id => by rw [hget, hlatest]) (fun id => by rw [hget, hall])
  · obtain ⟨c₁, hrun₁, hcalm₁⟩ := hvalues pair calm_pair _ (Nat.lt_succ_self _)
    obtain ⟨c₂, hrun₂, hcalm₂⟩ := hhistories c₁ hcalm₁ _ (Nat.lt_succ_self _)
    obtain ⟨c₃, hrun₃, -⟩ := hstamps c₂ hcalm₂ _ (Nat.lt_succ_self _)
    exact ⟨c₁, c₂, c₃, hrun₁, hrun₂, hrun₃⟩

end Pair

end QuorumStore
