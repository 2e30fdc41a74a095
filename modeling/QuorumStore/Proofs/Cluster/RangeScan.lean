import QuorumStore.Cluster.Services
import QuorumStore.Proofs.Cluster.Calm
import QuorumStore.Proofs.Ring.RangePlan
import QuorumStore.Proofs.Ring.Replicas
import QuorumStore.Proofs.Scan.Merged
import QuorumStore.Proofs.Scan.Table

/-!
# Range reads through the coordinator

On a calm cluster a range read through the coordinator finds, for each row of the range, what the
replicas of that row have, joined column by column.

* `Store.payload?`: what a range read of one replica gives for a key and a column.
* `Ring.payload?`: the join of what the replicas of a row give.
* `Ring.slice_tabulates`: the merge of a slice.
* `Run.plan_yields`, `Run.scan_yields`: what the merged scans of a plan and of a range yield.
* `Run.readRange_take`, `Run.readRange_calm`: **a drained range read tabulates the join.**
-/

namespace QuorumStore

open Std Std.Do

variable {τ : Type}

namespace Store

/-- What a range read gives for a key and a column. -/
def payload? (s : Store) (read : RangeRead τ) (range : RowRange) (key column : Bytes) : Option τ :=
  s.tables[read.table]?.bind fun t => t.data.payload? range read.time read.projection key column

/-- The rows of a range read; there are none without the table. -/
def rows (s : Store) (read : RangeRead τ) (range : RowRange) : List (Row τ) :=
  match s.scan read.table range read.time read.projection with
  | .error _ => []
  | .ok rows => rows

theorem rows_tabulates (s : Store) (read : RangeRead τ) (range : RowRange) :
    Tabulates (s.payload? read range) (s.rows read range) := by
  unfold rows payload? scan query
  cases s.tables[read.table]? with
  | none => exact ⟨.nil, by simp, by simp⟩
  | some t => exact t.data.scan_tabulates range read.time read.projection

theorem payload?_of_not_contains {s : Store} {read : RangeRead τ} {range : RowRange} {key : Bytes}
    (h : range.contains key ≠ true) (column : Bytes) : s.payload? read range key column = none := by
  unfold payload? Memtable.payload?
  simp [h]

/-- Two ranges with a row and the columns in common give the same for it. -/
theorem payload?_congr {s : Store} {read : RangeRead τ} {range range' : RowRange} {key : Bytes}
    (h : range.contains key = true) (h' : range'.contains key = true)
    (hcolumns : range.columns = range'.columns) (column : Bytes) :
    s.payload? read range key column = s.payload? read range' key column := by
  unfold payload? Memtable.payload?
  simp only [h, h', hcolumns]

end Store

section Slices

variable {r : Ring} {stores : ReplicaId → Store} {read : RangeRead τ} {range : RowRange}
  {sub : SubRange}

/-- What the replicas of a row give for it, joined. -/
def Ring.payload? (r : Ring) (stores : ReplicaId → Store) (read : RangeRead τ) (range : RowRange)
    (key column : Bytes) : Option τ :=
  joinAt read.projection.merge
    ((r.replicasOf key).map fun id => (stores id).payload? read range) key column

theorem joinAt_eq_none {merge : τ → τ → τ} {fs : List (Bytes → Bytes → Option τ)}
    {key column : Bytes} (h : ∀ f ∈ fs, f key column = none) : joinAt merge fs key column = none := by
  rw [← Option.not_isSome_iff_eq_none]
  unfold joinAt
  rw [isSome_foldl_merge]
  rintro (hnone | ⟨f, hf, hsome⟩)
  · cases hnone
  · rw [h f hf] at hsome
    cases hsome

/-- The merge of what some replicas have of a range tabulates the join of what they give. -/
theorem SubRange.tabulates {rows : List (Row τ)}
    (hrows : Joins read.projection.merge
      (sub.replicas.map fun id => (stores id).rows read sub.range).flatten rows) :
    Tabulates (joinAt read.projection.merge
      (sub.replicas.map fun id => (stores id).payload? read sub.range)) rows := by
  refine hrows.tabulates ?_
  rw [List.forall₂_map_left_iff, List.forall₂_map_right_iff, List.forall₂_same]
  exact fun id _ => (stores id).rows_tabulates read sub.range

/-- **The merge of a slice** tabulates the join as far as the slice goes. -/
theorem Ring.slice_tabulates (hsub : sub ∈ r.planRange range) {rows : List (Row τ)}
    (hrows : Joins read.projection.merge
      (sub.replicas.map fun id => (stores id).rows read sub.range).flatten rows) :
    Tabulates (within sub.range (r.payload? stores read range)) rows := by
  refine (SubRange.tabulates hrows).congr fun key column => ?_
  unfold within
  split
  · rename_i hin
    obtain ⟨start, stop, hclamp⟩ := Ring.clamp_of_mem_planRange hsub
    obtain ⟨hcolumns, -, -, hrange⟩ := RowRange.clamp_spec hclamp
    have hwhole := ((hrange key).1 hin).1
    unfold Ring.payload? joinAt
    rw [Ring.replicasOf_of_mem_planRange hsub hin, List.foldl_map, List.foldl_map]
    simp only [Store.payload?_congr hin hwhole hcolumns]
  · rename_i hout
    refine joinAt_eq_none fun f hf => ?_
    obtain ⟨id, -, rfl⟩ := List.mem_map.1 hf
    exact Store.payload?_of_not_contains hout column

/-- **The merges of the slices** one behind the other tabulate the join. -/
theorem Ring.plan_tabulates {merged : List (List (Row τ))}
    (h : List.Forall₂ (fun parts rows => Joins read.projection.merge parts.flatten rows)
      ((r.planRange range).map fun sub =>
        sub.replicas.map fun id => (stores id).rows read sub.range) merged) :
    Tabulates (r.payload? stores read range) merged.flatten := by
  by_cases hne : r.tokens = ∅
  · -- without tokens there is neither a slice nor a replica
    rw [Ring.planRange_of_empty hne, List.map_nil] at h
    cases h
    refine ⟨.nil, fun key => ?_, by simp⟩
    simp [Ring.payload?, Ring.replicasOf_of_empty hne, joinAt]
  · have hslices : List.Forall₂
        (fun range' rows => Tabulates (within range' (r.payload? stores read range)) rows)
        ((r.planRange range).map SubRange.range) merged := by
      rw [List.forall₂_map_left_iff] at h ⊢
      refine ((List.forall₂_and_left _ _).2 ⟨fun sub hsub => hsub, h⟩).imp ?_
      exact fun sub rows hsub => Ring.slice_tabulates hsub.1 hsub.2
    refine (Tabulates.flatten hslices ?_).congr fun key column => ?_
    · rw [List.pairwise_map]
      exact r.planRange_pairwise range
    · split
      · rfl
      · rename_i hnone
        -- a row in no slice is not in the range
        have hout : range.contains key ≠ true := by
          intro hin
          obtain ⟨sub, hsub, hcontains⟩ := Ring.exists_mem_planRange hne hin
          exact hnone (List.any_eq_true.2 ⟨_, List.mem_map_of_mem hsub, hcontains⟩)
        refine (joinAt_eq_none fun f hf => ?_).symm
        obtain ⟨id, -, rfl⟩ := List.mem_map.1 hf
        exact Store.payload?_of_not_contains hout column

/-- The replicas of a slice are endpoints of the ring. -/
theorem Ring.mem_replicas_of_mem_planRange (hsub : sub ∈ r.planRange range) {id : ReplicaId}
    (hid : id ∈ sub.replicas) : id ∈ r.replicas := by
  rw [Ring.replicas_of_mem_planRange hsub] at hid
  exact Ring.mem_replicas_of_mem_replicasFrom hid

end Slices

section Reading

variable {k : Coordinator} {r : Ring} {stores : ReplicaId → Store} {read : RangeRead τ}
  {range : RowRange}

/-- On a calm cluster the replicas of every slice deliver their own rows. -/
theorem opens_calm {ids : List ReplicaId} {plan : List SubRange}
    (hplan : ∀ sub ∈ plan, ∀ id ∈ sub.replicas, id ∈ ids) :
    MergedScan.Opens read.source (fun _ => fun c => ⌜c.Calm k ids stores⌝) plan
      (plan.map fun sub => sub.replicas.map fun id => (stores id).rows read sub.range) := by
  induction plan with
  | nil => trivial
  | cons sub plan ih =>
    refine ⟨?_, ih fun sub hsub => hplan sub (List.mem_cons_of_mem _ hsub)⟩
    refine Hoare.mono (Run.openAll_calm (hplan sub List.mem_cons_self)) ?_
    rintro opened rfl
    unfold Opened
    rw [List.forall₂_map_left_iff, List.forall₂_map_right_iff, List.forall₂_same]
    intro id _
    unfold RangeRead.answer Store.rows
    cases (stores id).scan read.table sub.range read.time read.projection with
    | error e => rfl
    | ok rows => exact (Feed.yields rows).delivers

theorem shows_rowCursor {I : List SubRange → Assertion (.except Halt (.arg Cluster .pure))}
    {J : RowCursor τ → Assertion (.except Halt (.arg Cluster .pure))}
    (hJ : ∀ s, J (.scan ⟨read, s⟩) = I s.pending) :
    MergedScan.Shows read.source read.projection.merge I J
      (fun s => RowCursor.scan ⟨read, s⟩) := by
  refine ⟨fun s => ?_, hJ⟩
  simp only [Cursor.next, bind_assoc, pure_bind]

theorem dropped_calm {ids : List ReplicaId} (id : ReplicaId) (stage : ScanStage) (e : Failure) :
    ⦃fun c => ⌜c.Calm k ids stores⌝⦄ (read.source.dropped id stage e)
    ⦃⇓ _ => fun c => ⌜c.Calm k ids stores⌝⦄ :=
  Run.triple_iff.2 fun _ hc => ⟨(), _, rfl, hc.frame rfl rfl rfl rfl⟩

/-- Closing a cursor changes nothing but the cursor. -/
theorem RowCursor.close_keeps {I : Assertion (.except Halt (.arg Cluster .pure))}
    (cursor : RowCursor τ) : ⦃I⦄ (Cursor.close cursor : Run _) ⦃⇓ _ => I⦄ := by
  cases cursor with
  | feed rows => exact Triple.pure _ .rfl
  | scan s =>
    have hfeed : ∀ f : Feed (Row τ), ⦃I⦄ (Cursor.close f : Run _) ⦃⇓ _ => I⦄ :=
      fun f => Triple.pure _ .rfl
    refine Hoare.keep (K := I) ?_ fun _ => Triple.pure _ .rfl
    exact Hoare.keep (MergedScan.close_spec hfeed s.scan) fun _ => Triple.pure _ .rfl

/-- A range read is opened through the coordinator; nothing is asked of a replica yet. -/
theorem Run.run_openRange {c : Cluster} (hk : c.coordinator = some k) (projection : Projection τ)
    (table : TableName) (range : RowRange) (t : Timestamp) :
    (coordinatorService.openRange projection table range t).run.run c =
      (.ok (.ok (.scan ⟨⟨projection, table, t⟩, { pending := k.placement.planRange range }⟩)),
        { c with telemetry := c.telemetry.count (·.countRequest projection.operation) }) := by
  cases c
  cases hk
  rfl

/-- **The merged scan of a plan** yields the merges of its slices, one behind the other. -/
theorem Run.plan_yields {ids : List ReplicaId} {plan : List SubRange}
    (hplan : ∀ sub ∈ plan, ∀ id ∈ sub.replicas, id ∈ ids) {merged : List (List (Row τ))}
    (hmerged : List.Forall₂ (fun parts rows => Joins read.projection.merge parts.flatten rows)
      (plan.map fun sub => sub.replicas.map fun id => (stores id).rows read sub.range) merged) :
    Cursor.Yields Run (fun _ => fun c : Cluster => ⌜c.Calm k ids stores⌝) merged.flatten
      (RowCursor.scan ⟨read, { pending := plan }⟩) := by
  have hclose : ∀ (_ : List SubRange) (f : Feed (Row τ)), ⦃fun c => ⌜c.Calm k ids stores⌝⦄
      (Cursor.close f : Run _) ⦃⇓ _ => fun c => ⌜c.Calm k ids stores⌝⦄ :=
    fun _ f => Triple.pure _ .rfl
  have hsent : ∀ parts ∈ plan.map fun sub =>
      sub.replicas.map fun id => (stores id).rows read sub.range,
      ∀ part ∈ parts, part.Pairwise fun a b => a.key < b.key := by
    intro parts hparts part hpart
    obtain ⟨sub, -, rfl⟩ := List.mem_map.1 hparts
    obtain ⟨id, -, rfl⟩ := List.mem_map.1 hpart
    exact ((stores id).rows_tabulates read sub.range).ascending
  have hshows : MergedScan.Shows read.source read.projection.merge
      (fun _ => fun c : Cluster => ⌜c.Calm k ids stores⌝)
      (fun _ => fun c : Cluster => ⌜c.Calm k ids stores⌝) fun s => RowCursor.scan ⟨read, s⟩ :=
    shows_rowCursor fun _ => rfl
  exact MergedScan.yields_joins hshows hclose (fun _ id stage e => dropped_calm id stage e)
    (opens_calm hplan) hsent hmerged

/-- **A merged scan yields the join** of what the replicas of each row have. -/
theorem Run.scan_yields {ids : List ReplicaId} (hids : ∀ id ∈ r.replicas, id ∈ ids)
    (read : RangeRead τ) (range : RowRange) : ∃ rows,
    Tabulates (r.payload? stores read range) rows ∧
    Cursor.Yields Run (fun _ => fun c : Cluster => ⌜c.Calm k ids stores⌝) rows
      (RowCursor.scan ⟨read, { pending := r.planRange range }⟩) := by
  obtain ⟨merged, hmerged⟩ := Joins.exists_each read.projection.merge
    ((r.planRange range).map fun sub => sub.replicas.map fun id => (stores id).rows read sub.range)
  exact ⟨merged.flatten, Ring.plan_tabulates hmerged, Run.plan_yields
    (fun sub hsub id hid => hids id (Ring.mem_replicas_of_mem_planRange hsub hid)) hmerged⟩

/-- **A range read reads the rows that its scan yields**, up to a number of them, and leaves the
cluster calm. -/
theorem Run.readRange_of_yields {ids : List ReplicaId} {projection : Projection τ}
    {table : TableName} {t : Timestamp} {rows : List (Row τ)}
    (hyields : Cursor.Yields Run (fun _ => fun c : Cluster => ⌜c.Calm k ids stores⌝) rows
      (RowCursor.scan ⟨⟨projection, table, t⟩, { pending := k.placement.planRange range }⟩))
    (limit : Nat) :
    ⦃fun c => ⌜c.Calm k ids stores⌝⦄
    (coordinatorService.readRange limit projection table range t)
    ⦃⇓ result => spred(⌜result = .ok (rows.take limit)⌝ ∧ fun c => ⌜c.Calm k ids stores⌝)⦄ := by
  have hcollect := Cursor.collect_take limit hyields RowCursor.close_keeps
  refine triple_of_run fun c hc => ?_
  unfold Service.readRange
  rw [run_bind_ok (run_openRange hc.coordinator projection table range t)]
  let c₁ : Cluster :=
    { c with telemetry := c.telemetry.count (·.countRequest projection.operation) }
  have hc₁ : c₁.Calm k ids stores := hc.frame rfl rfl rfl rfl
  obtain ⟨⟨result, cursor⟩, c', hrun, hresult, hcalm⟩ := run_of_triple hcollect hc₁
  exact ⟨result, c', run_bind_ok hrun, hresult, hcalm⟩

/-- **A range read reads the join** of what the replicas of each row have, up to a number of rows, and
leaves the cluster calm. -/
theorem Run.readRange_take {ids : List ReplicaId} (hk : k.placement = r.placement)
    (hids : ∀ id ∈ r.replicas, id ∈ ids) (projection : Projection τ) (table : TableName)
    (t : Timestamp) : ∃ rows,
    Tabulates (r.payload? stores ⟨projection, table, t⟩ range) rows ∧
    ∀ limit,
      ⦃fun c => ⌜c.Calm k ids stores⌝⦄
      (coordinatorService.readRange limit projection table range t)
      ⦃⇓ result => spred(⌜result = .ok (rows.take limit)⌝ ∧ fun c => ⌜c.Calm k ids stores⌝)⦄ := by
  obtain ⟨rows, hrows, hyields⟩ :=
    @Run.scan_yields τ k r stores ids hids ⟨projection, table, t⟩ range
  refine ⟨rows, hrows, fun limit => Run.readRange_of_yields ?_ limit⟩
  rw [hk]
  exact hyields

/-- **A drained range read tabulates the join.** -/
theorem Run.readRange_calm (hk : k.placement = r.placement) (projection : Projection τ)
    (table : TableName) (t : Timestamp) : ∃ rows,
    Tabulates (r.payload? stores ⟨projection, table, t⟩ range) rows ∧
    ∀ limit, rows.length < limit →
      ⦃fun c => ⌜c.Calm k r.replicas stores⌝⦄
      (coordinatorService.readRange limit projection table range t)
      ⦃⇓ result => spred(⌜result = .ok rows⌝ ∧ fun c => ⌜c.Calm k r.replicas stores⌝)⦄ := by
  obtain ⟨rows, hrows, hread⟩ := Run.readRange_take hk (fun _ hid => hid) projection table t
  refine ⟨rows, hrows, fun limit hlimit => ?_⟩
  have htake := hread limit
  rw [List.take_of_length_le (Nat.le_of_lt hlimit)] at htake
  exact htake

end Reading

end QuorumStore
