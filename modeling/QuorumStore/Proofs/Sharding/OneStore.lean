import QuorumStore.Proofs.Cluster.PointReads
import QuorumStore.Proofs.Sharding.Requests

/-!
# A healthy cluster behaves like one store

Changes go through the coordinator of a ring to replicas without faults, each after all calls of the
one before have had their turn. Beside them the same changes are made to one store. The replicas hold
the shards of that store all along, so every read through the coordinator gives its answer.

* `HealthyRun`: a cluster after such requests, with the store that has got the same changes.
* `HealthyRun.shards`: the replicas hold the shards of the store.
* `HealthyRun.behaves_like_one_store`: **each replica holds exactly the versions of its rows, and reads
  give exactly what the store gives.**
-/

namespace QuorumStore

open Std Quorum

/-- The verbs that change the versions of tables. -/
def Verb.Changes {α : Type} : Verb α → Prop
  | .createTable .. | .dropTable _ | .truncateTable _ => True
  | .put .. | .putWithTimestamps .. | .putUnlessExists .. | .delete .. | .addSentinels .. => True
  | _ => False

/-- A cluster after requests to its coordinator, all of them answered, and a store to which the same
changes have been made. All calls of a change have had their turn before the next request. -/
inductive HealthyRun (c₀ : Cluster) : Cluster → Store → Prop where
  /-- The store is empty at first. -/
  | start : HealthyRun c₀ c₀ {}
  /-- A change, and time until none of its calls is on its way. -/
  | change {c c₁ : Cluster} {s : Store} {v : Verb Unit} (before : HealthyRun c₀ c s)
      (hv : v.Changes) (hok : (coordinatorService.run v).run.run c = (.ok (.ok ()), c₁)) (t : Nat)
      (hdone : (c₁.advanceTo t).late = []) : HealthyRun c₀ (c₁.advanceTo t) (Store.run v s).2
  /-- A point read. -/
  | read {α : Type} {c c₁ : Cluster} {s : Store} {v : Verb α} {table : TableName} {a : α}
      (before : HealthyRun c₀ c s) (hv : v.pointRead? = some table)
      (hok : (coordinatorService.run v).run.run c = (.ok (.ok a), c₁)) : HealthyRun c₀ c₁ s
  /-- A range read, drained or not. -/
  | scan {τ : Type} {c c₁ : Cluster} {s : Store} {projection : Projection τ} {table : TableName}
      {range : RowRange} {t : Timestamp} {limit : Nat} {rows : List (Row τ)}
      (before : HealthyRun c₀ c s)
      (hok : (coordinatorService.readRange limit projection table range t).run.run c =
        (.ok (.ok rows), c₁)) : HealthyRun c₀ c₁ s
  /-- Time passes. -/
  | wait {c : Cluster} {s : Store} (before : HealthyRun c₀ c s) (t : Nat) :
      HealthyRun c₀ (c.advanceTo t) s

variable {α : Type} {k : Coordinator} {r : Ring} {ids : List ReplicaId} {c₀ c c₁ : Cluster} {s : Store}

theorem Verb.Changes.cases {v : Verb α} (h : v.Changes) :
    (∃ e, v.edit? = some e) ∨ v.ChangesTable := by
  cases v with
  | put | putWithTimestamps | putUnlessExists | delete | addSentinels => exact Or.inl ⟨_, rfl⟩
  | createTable | dropTable | truncateTable => exact Or.inr trivial
  | _ => exact h.elim

/-- The coordinator answers what the service of the cluster is asked. -/
theorem Run.run_coordinatorService (hk : c.coordinator = some k) (v : Verb α) :
    (coordinatorService.run v).run.run c = (k.run v).run.run c := by
  cases c
  cases hk
  rfl

theorem Ring.shards_empty (r : Ring) : r.Shards (fun _ => {}) {} :=
  ⟨fun _ _ => rfl, fun _ _ => rfl, rfl⟩

namespace HealthyRun

/-- **The replicas hold the shards of the store all along.** -/
theorem shards (hk : k.placement = r.placement) (hids : ∀ id ∈ r.replicas, id ∈ ids)
    (hstart : c₀.Calm k ids fun _ => {}) (h : HealthyRun c₀ c s) :
    ∃ stores, c.Calm k ids stores ∧ r.Shards stores s := by
  induction h with
  | start => exact ⟨_, hstart, r.shards_empty⟩
  | @change c c₁ s v _ hv hok t hdone ih =>
    obtain ⟨stores, hcalm, hshards⟩ := ih
    rw [Run.run_coordinatorService hcalm.coordinator] at hok
    rcases hv.cases with ⟨e, he⟩ | htable
    · obtain ⟨stores', hcalm', hstores, hrows⟩ := Run.edit_calm he hcalm hk hids hok hdone
      exact ⟨stores', hcalm', hshards.edit e hstores hrows⟩
    · obtain ⟨stores', hcalm', hstores, hothers⟩ := Run.changeTable_calm htable hcalm hk hids hok
      exact ⟨stores', hcalm'.advanceTo t, hshards.changeTable htable hstores hothers⟩
  | read _ hv hok ih =>
    obtain ⟨stores, hcalm, hshards⟩ := ih
    rw [Run.run_coordinatorService hcalm.coordinator] at hok
    obtain ⟨q, hq, -⟩ := Coordinator.exists_routed_of_pointRead (k := k) hv
    exact ⟨stores, (Run.pointRead_calm hv hcalm hk hids hq hok).1, hshards⟩
  | @scan τ c c₁ s projection table range t limit rows _ hok ih =>
    obtain ⟨stores, hcalm, hshards⟩ := ih
    obtain ⟨c', hrun, hcalm'⟩ :=
      Run.readRange_shards hcalm hshards hk hids projection table range t limit
    rw [hrun] at hok
    cases hok
    exact ⟨stores, hcalm', hshards⟩
  | wait _ t ih =>
    obtain ⟨stores, hcalm, hshards⟩ := ih
    exact ⟨stores, hcalm.advanceTo t, hshards⟩

/-- **A healthy cluster behaves like one store.** Each replica holds of every row that is placed on it
exactly the versions of the store, and of other rows none. Of a table that exists, every point read
that is answered gives the answer of the store, and every drained range read gives its rows. -/
theorem behaves_like_one_store (hk : k.placement = r.placement)
    (hids : ∀ id ∈ r.replicas, id ∈ ids) (hstart : c₀.Calm k ids fun _ => {})
    (h : HealthyRun c₀ c s) :
    (∀ id ∈ ids, ∃ replica, c.replicas[id]? = some replica ∧ ∀ table cell ts,
      replica.store.version? table cell ts =
        if id ∈ r.replicasOf cell.row then s.version? table cell ts else none) ∧
    (∀ {α : Type} (v : Verb α) (table : TableName) (a : α) (c₁ : Cluster),
      v.pointRead? = some table → table ∈ s.tables →
      (coordinatorService.run v).run.run c = (.ok (.ok a), c₁) → (Store.run v s).1 = .ok a) ∧
    ∀ {τ : Type} (projection : Projection τ) (table : TableName) (range : RowRange) (t : Timestamp),
      table ∈ s.tables → ∃ rows, s.scan table range t projection = .ok rows ∧
        ∀ limit, rows.length < limit → ∃ c₁,
          (coordinatorService.readRange limit projection table range t).run.run c =
            (.ok (.ok rows), c₁) := by
  obtain ⟨stores, hcalm, hshards⟩ := h.shards hk hids hstart
  refine ⟨fun id hid => ?_, ?_, ?_⟩
  · obtain ⟨replica, hreplica, -, hstore⟩ := hcalm.replicas id hid
    refine ⟨replica, hreplica, fun table cell ts => ?_⟩
    rw [hstore]
    by_cases hmem : id ∈ r.replicas
    · rw [hshards.shard id hmem, Store.version?_restrict]
      unfold Ring.owns
      simp only [decide_eq_true_eq]
    · have hnot : id ∉ r.replicasOf cell.row :=
        fun howns => hmem (Ring.mem_replicas_of_mem_replicasOf howns)
      rw [hshards.others id hmem, if_neg hnot]
      rfl
  · intro α v table a c₁ hread htable hok
    rw [Run.run_coordinatorService hcalm.coordinator] at hok
    obtain ⟨q, hq, -⟩ := Coordinator.exists_routed_of_pointRead (k := k) hread
    obtain ⟨-, heard, rfl, howned, hcover⟩ := Run.pointRead_calm hread hcalm hk hids hq hok
    exact hshards.answer_eq hq hread htable howned hcover
  · intro τ projection table range t htable
    obtain ⟨tbl, htbl⟩ := Option.isSome_iff_exists.1 (ExtTreeMap.mem_iff_isSome_getElem?.1 htable)
    have hscan : s.scan table range t projection = .ok (tbl.data.scan range t projection) := by
      unfold Store.scan Store.query
      rw [htbl]
    have hrows : s.rows ⟨projection, table, t⟩ range = tbl.data.scan range t projection := by
      unfold Store.rows
      rw [hscan]
    refine ⟨_, hscan, fun limit hlimit => ?_⟩
    obtain ⟨c₁, hrun, -⟩ :=
      Run.readRange_shards hcalm hshards hk hids projection table range t limit
    rw [hrows, List.take_of_length_le (Nat.le_of_lt hlimit)] at hrun
    exact ⟨c₁, hrun⟩

end HealthyRun

section Pair

/-- A request none of whose calls has to wait. -/
theorem QuorumRequest.proceed_nil {κ υ τ α : Type} [Ord υ] [TransOrd υ]
    (q : QuorumRequest κ υ τ α) (g : Gathering υ α) (done : List (Completion τ)) (c : Cluster) :
    (q.proceed g [] done).run.run c =
      (q.conclude (q.drain g done).1 (q.drain g done).2.2 []).run.run
        { c with telemetry := q.observe c.telemetry (q.drain g done).2.1 } := by
  rw [proceed]
  obtain ⟨g', remarks, progress⟩ := q.drain g done
  cases progress <;> rfl

/-- Two replicas without tables behind their coordinator. -/
def emptyPair : Cluster where
  replicas := ((∅ : ExtTreeMap ReplicaId Replica).insert "a" {}).insert "b" {}
  coordinator := some pairCoordinator

/-- The two replicas with an empty table. -/
def tablePair : Cluster := ((coordinatorService.run (.createTable "t" 10)).run.run emptyPair).2

/-- A value for one cell. -/
def pairValues : ExtTreeMap Cell Bytes := (∅ : ExtTreeMap Cell Bytes).insert ⟨[80], [1]⟩ [7]

theorem run_put_tablePair : ∃ c,
    (coordinatorService.run (.put "t" pairValues 3)).run.run tablePair = (.ok (.ok ()), c) ∧
      c.late = [] := by
  let q := pairCoordinator.put "t" pairValues 3
  show ∃ c, q.run.run.run tablePair = _ ∧ _
  unfold QuorumRequest.run
  rw [Run.run_bind_ok (Run.run_count _ _)]
  generalize hc : ({ tablePair with telemetry := _ } : Cluster) = c
  have hnow : ({ c with now := max c.now c.now } : Cluster) = c := by
    rw [Nat.max_self]
  have hawait : (Run.awaitCalls c.now (q.mode.queued c.now (q.calls.map Prod.snd))).run.run c =
      (.ok (), c) := by
    unfold Run.awaitCalls
    rw [Run.run_bind_ok (Run.run_get c), show c.deadline = none by rw [← hc]; rfl,
      Cluster.runLate_of_nil (by rw [← hc]; rfl), hnow]
    rfl
  dsimp only
  rw [if_neg (show ¬ q.start.tally.finished = true by decide),
    if_neg (show ¬ q.plan.isEmpty = true by decide), Run.run_bind_ok (Run.run_get c),
    Run.run_bind_ok hawait, Run.run_bind_ok (Run.run_get c), Run.run_bind_ok (Run.run_set _ _)]
  have hwaiting : (c.beginAll q.calls).2.1 = [] := by
    rw [← List.isEmpty_iff, ← hc]
    decide
  have hanswered : (q.drain q.start (c.beginAll q.calls).1).2.2 = .answered := by
    rw [← hc]
    decide
  rw [hwaiting, QuorumRequest.proceed_nil, hanswered]
  refine ⟨_, rfl, ?_⟩
  show (c.beginAll q.calls).2.2.late = []
  rw [← List.isEmpty_iff, ← hc]
  decide

/-- The two replicas after a table has been created and a value written: the value is on both, and a
read of all rows has it. -/
theorem behaves_like_one_store_pair : ∃ (c : Cluster) (s : Store), HealthyRun emptyPair c s ∧
    (∀ id ∈ ["a", "b"], ∃ replica, c.replicas[id]? = some replica ∧
      replica.store.version? "t" ⟨[80], [1]⟩ 3 = some [7]) ∧
    ∃ (c₁ : Cluster) (rows : List (Row Value)), rows.map Row.key = [[80]] ∧
      (coordinatorService.readRange 10 .latest "t" .all 9).run.run c = (.ok (.ok rows), c₁) := by
  have hids : ∀ id ∈ Ring.threeTokens.replicas, id ∈ ["a", "b"] := by decide
  have hempty : emptyPair.Calm pairCoordinator ["a", "b"] fun _ => {} := by
    refine ⟨rfl, rfl, rfl, fun id hid => ⟨{}, ?_, ⟨rfl, rfl, rfl, rfl⟩, rfl⟩⟩
    rcases List.mem_cons.1 hid with rfl | hid
    · decide
    · rw [List.mem_singleton.1 hid]
      decide
  -- two changes, neither of which leaves a call on its way
  obtain ⟨c, hput, hlate⟩ := run_put_tablePair
  have hcreate : (coordinatorService.run (.createTable "t" 10)).run.run emptyPair =
      (.ok (.ok ()), tablePair) := rfl
  have htable : tablePair.late = [] := rfl
  have hcreated := HealthyRun.start.change (v := .createTable "t" 10) trivial hcreate tablePair.now
    (by rw [Cluster.advanceTo_now htable, htable])
  rw [Cluster.advanceTo_now htable] at hcreated
  have hrun := hcreated.change (v := .put "t" pairValues 3) trivial hput c.now
    (by rw [Cluster.advanceTo_now hlate, hlate])
  rw [Cluster.advanceTo_now hlate] at hrun
  obtain ⟨hversions, -, hscans⟩ := HealthyRun.behaves_like_one_store rfl hids hempty hrun
  refine ⟨c, _, hrun, fun id hid => ?_, ?_⟩
  · obtain ⟨replica, hreplica, hversion⟩ := hversions id hid
    refine ⟨replica, hreplica, ?_⟩
    rw [hversion, if_pos]
    · decide
    · rcases List.mem_cons.1 hid with rfl | hid
      · decide
      · rw [List.mem_singleton.1 hid]
        decide
  · obtain ⟨rows, hrows, hread⟩ := hscans .latest "t" .all 9 (by decide)
    have hone : rows.map Row.key = [[80]] := by
      have hkeys : ((Store.run (.put "t" pairValues 3)
          (Store.run (.createTable "t" 10) {}).2).2.scan "t" .all 9 .latest).toOption.map
            (·.map Row.key) = some [[80]] := by decide
      rw [hrows] at hkeys
      exact Option.some.inj hkeys
    obtain ⟨c₁, hread⟩ := hread 10 (by
      rw [← List.length_map (f := Row.key), hone]
      decide)
    exact ⟨c₁, rows, hone, hread⟩

end Pair

end QuorumStore
