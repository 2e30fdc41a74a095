import QuorumStore.Proofs.Cluster.Alike
import QuorumStore.Proofs.Cluster.Openings
import QuorumStore.Proofs.Cluster.RangeScan
import QuorumStore.Proofs.Interleaving.Mirror
import QuorumStore.Proofs.Interleaving.Scans

/-!
# Range reads in virtual time are scans

A range read through the coordinator of a cluster opens the cursors of a sub-range when it comes to it.
Time passes meanwhile, and calls of earlier operations go on. What the read gets from a replica is what
its store has when the cursor is opened.

* `Mirrors.openSlice`: **the cursors of a sub-range** show what their stores have.
* `Reading`: the cluster while sub-ranges are to be read.
* `scans_rangeRead`: **a range read is a scan** beside earlier operations.
* `readRange_scans`: what a drained range read through the coordinator returns.
* `readRange_sees_writes`: **it sees the writes before it.**
-/

namespace QuorumStore

open Std Std.Do

variable {τ : Type} {read : RangeRead τ} {range : RowRange}

/-- The answers of the replicas of a sub-range that is opened now, and the cluster then. -/
def Cluster.openSlice (read : RangeRead τ) (c : Cluster) (sub : SubRange) :
    List (ReplicaId × Except Failure (Feed (Row τ))) × Cluster :=
  match (Run.openAll read sub.range sub.replicas).run.run c with
  | (.ok opened, c') => (opened, c')
  | (.error _, c') => ([], c')

theorem Cluster.openSlice_of_run {c c' : Cluster} {sub : SubRange}
    {opened : List (ReplicaId × Except Failure (Feed (Row τ)))}
    (h : (Run.openAll read sub.range sub.replicas).run.run c = (.ok opened, c')) :
    c.openSlice read sub = (opened, c') := by
  unfold openSlice
  rw [h]

namespace Interleaving

variable {k : Coordinator} {n : Nat} {w w₀ w' w'' : World} {c c' : Cluster} {d : Delivery τ}
  {plan pending : List SubRange}

section Openings

theorem Snapshot.mono (h : Snapshot k w w' read range d) (hbefore : Reaches k w₀ w)
    (hafter : Reaches k w' w'') : Snapshot k w₀ w'' read range d := by
  obtain ⟨w₁, hto, hfrom, hrows⟩ := h
  exact ⟨w₁, hbefore.trans hto, hfrom.trans hafter, hrows⟩

/-- A replica that does not answer is left out. -/
theorem snapshot_error (id : ReplicaId) (e : Failure) :
    Snapshot k w w read range (.ofAnswer (id, .error e)) :=
  ⟨w, .refl, .refl, List.nil_prefix, fun h => by cases h⟩

/-- A cursor shows what the store has when it is opened. -/
theorem snapshot_openRange {id : ReplicaId} {r : Replica} (hstore : w.stores id = r.store) :
    Snapshot k w w read range
      (.ofAnswer (id, (r.openRange read.projection read.table range read.time).1)) := by
  unfold Replica.openRange
  cases hscan : r.store.scan read.table range read.time read.projection with
  | error e => exact snapshot_error id e
  | ok rows =>
    have hrows : (w.stores id).rows read range = rows := by
      unfold Store.rows
      rw [hstore, hscan]
    refine ⟨w, .refl, .refl, ?_, fun hkept => ?_⟩
    · show (r.cursor rows).given <+: (w.stores id).rows read range
      rw [hrows]
      exact (r.cursor rows).given_isInitial
    · show (w.stores id).scan read.table range read.time read.projection =
        .ok (r.cursor rows).given
      rw [Feed.given_of_not_breaks (f := r.cursor rows) hkept, hstore]
      exact hscan

/-- Cursors change no store. -/
theorem SameStores.openRange (h : SameStores w c) (id : ReplicaId) (read : RangeRead τ)
    (range : RowRange) : SameStores w (c.openRange id read range).2 := by
  unfold Cluster.openRange
  cases hr : c.replicas[id]? with
  | none => exact h
  | some r => exact h.insert rfl (h id r hr) fun _ _ => rfl

/-- What a cursor that is opened now delivers. -/
theorem Mirrors.snapshot (h : Mirrors k n w c) (id : ReplicaId) :
    Snapshot k w w read range (.ofAnswer (id, (c.openRange id read range).1)) := by
  unfold Cluster.openRange
  cases hr : c.replicas[id]? with
  | none => exact snapshot_error id _
  | some r => exact snapshot_openRange (h.stores id r hr)

/-- While a range read is under way the cluster mirrors a world that comes later, and the answers are
from the stores meanwhile. -/
def Seen (k : Coordinator) (n : Nat) (w : World) (read : RangeRead τ) (range : RowRange)
    (s : Openings τ) : Prop :=
  ∃ w', Later k n w w' ∧ Mirrors k n w' s.cluster ∧
    ∀ answer ∈ s.answers, Snapshot k w w' read range (.ofAnswer answer)

theorem Seen.step {asked : List ReplicaId} {s s' : Openings τ} (h : Seen k n w read range s)
    (hstep : Openings.Step read range asked s s') : Seen k n w read range s' := by
  obtain ⟨w', hlater, hmirrors, hanswers⟩ := h
  have hsnoc : ∀ {answer}, Snapshot k w' w' read range (.ofAnswer answer) →
      ∀ a ∈ s.answers ++ [answer], Snapshot k w w' read range (.ofAnswer a) := by
    intro answer hanswer a ha
    rcases List.mem_append.1 ha with ha | ha
    · exact hanswers a ha
    · rw [List.mem_singleton.1 ha]
      exact hanswer.mono hlater.reaches .refl
  cases hstep with
  | turn hturn =>
    obtain ⟨w'', hlater', hmirrors'⟩ := hmirrors.turn hturn
    exact ⟨w'', hlater.trans hlater', hmirrors',
      fun a ha => (hanswers a ha).mono .refl hlater'.reaches⟩
  | failed => exact ⟨w', hlater, hmirrors, hsnoc (snapshot_error _ _)⟩
  | @opened id hid =>
    have hstores := hmirrors.stores.openRange id read range
    refine ⟨w', hlater, hmirrors.frame hstores ?_ fun _ _ => rfl, hsnoc (hmirrors.snapshot id)⟩
    unfold Cluster.openRange
    split <;> rfl

/-- **The cursors of a sub-range** are opened while earlier operations go on, and each shows what its
store has at some moment meanwhile. -/
theorem Mirrors.openSlice (h : Mirrors k n w c) (hdeadline : c.deadline = none) (read : RangeRead τ)
    (sub : SubRange) : ∃ opened c' w',
      (Run.openAll read sub.range sub.replicas).run.run c = (.ok opened, c') ∧
      c'.deadline = none ∧ Later k n w w' ∧ Mirrors k n w' c' ∧
      opened.map Prod.fst = sub.replicas ∧
      ∀ answer ∈ opened, Snapshot k w w' read sub.range (.ofAnswer answer) := by
  have hstart : Seen k n w read sub.range ⟨c, []⟩ :=
    ⟨w, .refl k n w, h, fun _ ha => absurd ha List.not_mem_nil⟩
  cases Run.openAll_opens read sub.range sub.replicas ⟨c, []⟩ with
  | abandoned _ hsome => exact absurd hdeadline hsome
  | @ended opened s hsteps hrun hend =>
    obtain ⟨w', hlater, hmirrors, hanswers⟩ := hsteps.keeps (fun _ _ h hstep => h.step hstep) hstart
    exact ⟨opened, s.cluster, w', hrun, hsteps.deadline.trans hdeadline, hlater, hmirrors, hend.1,
      fun answer ha => hanswers answer (hend.2 answer ha)⟩

end Openings

section Scans

/-- What a range read gets of the listed sub-ranges, one after the other. -/
def sentFrom (read : RangeRead τ) : Cluster → List SubRange → List (List (Delivery τ))
  | _, [] => []
  | c, sub :: pending =>
    (c.openSlice read sub).1.map .ofAnswer :: sentFrom read (c.openSlice read sub).2 pending

/-- The cluster after the listed sub-ranges. -/
def afterSlices (read : RangeRead τ) (c : Cluster) (before : List SubRange) : Cluster :=
  before.foldl (fun c sub => (c.openSlice read sub).2) c

/-- The cluster while the sub-ranges that are pending are to be read. Only counters and log depend on
what has been read of the others. -/
def Reading (read : RangeRead τ) (plan : List SubRange) (c : Cluster) (pending : List SubRange)
    (c' : Cluster) : Prop :=
  ∃ before, plan = before ++ pending ∧ (afterSlices read c before).Alike c'

/-- The same while a cursor is read. -/
def ReadingBy (read : RangeRead τ) (plan : List SubRange) (c : Cluster) :
    RowCursor τ → Cluster → Prop
  | .feed _, _ => False
  | .scan s, c' => Reading read plan c s.scan.pending c'

/-- Earlier operations go on while sub-ranges are opened. -/
theorem Mirrors.afterSlices (h : Mirrors k n w c) (hdeadline : c.deadline = none)
    (read : RangeRead τ) (before : List SubRange) :
    ∃ w', Later k n w w' ∧ Mirrors k n w' (afterSlices read c before) := by
  induction before generalizing w c with
  | nil => exact ⟨w, .refl k n w, h⟩
  | cons sub before ih =>
    obtain ⟨opened, c', w', hrun, hdeadline', hlater, hmirrors, -⟩ := h.openSlice hdeadline read sub
    obtain ⟨w'', hlater', hmirrors'⟩ := ih hmirrors hdeadline'
    have hslice := Cluster.openSlice_of_run hrun
    refine ⟨w'', hlater.trans hlater', ?_⟩
    unfold Interleaving.afterSlices
    rw [List.foldl_cons, hslice]
    exact hmirrors'

theorem ReadingBy.mirrors {cursor : RowCursor τ} (h : ReadingBy read plan c cursor c')
    (hm : Mirrors k n w c) (hdeadline : c.deadline = none) :
    ∃ w', Later k n w w' ∧ Mirrors k n w' c' := by
  cases cursor with
  | feed => exact h.elim
  | scan s =>
    obtain ⟨before, -, halike⟩ := h
    obtain ⟨w', hlater, hmirrors⟩ := hm.afterSlices hdeadline read before
    obtain ⟨t, rfl⟩ := halike
    exact ⟨w', hlater, hmirrors.frame hmirrors.stores rfl fun _ _ => rfl⟩

/-- The next sub-range is opened in the same way, whatever has been counted and logged. -/
theorem reading_openAll {before : List SubRange} {sub : SubRange} {c₁ c₂ : Cluster}
    {opened : List (ReplicaId × Except Failure (Feed (Row τ)))}
    (hplan : plan = before ++ sub :: pending) (hc₁ : afterSlices read c before = c₁)
    (hrun : (Run.openAll read sub.range sub.replicas).run.run c₁ = (.ok opened, c₂))
    (hplan₂ : plan = (before ++ [sub]) ++ pending)
    (hc₂ : afterSlices read c (before ++ [sub]) = c₂) :
    ⦃fun c' : Cluster => ⌜Reading read plan c (sub :: pending) c'⌝⦄
    (read.source.openAll sub.range sub.replicas)
    ⦃⇓ answers => spred(⌜List.Forall₂
        (Delivery.Of Run fun c' : Cluster => ⌜Reading read plan c pending c'⌝)
        answers (opened.map .ofAnswer)⌝ ∧ fun c' : Cluster => ⌜Reading read plan c pending c'⌝)⦄ := by
  refine Run.triple_of_run fun c' hreading => ?_
  obtain ⟨before', hplan', halike⟩ := hreading
  -- where a sub-range is pending those before it have been opened
  obtain rfl : before = before' := List.append_cancel_right (hplan.symm.trans hplan')
  rw [hc₁] at halike
  obtain ⟨hsame, hleft⟩ := Run.blind_openAll read sub.range sub.replicas c₁ c' halike
  rcases hrun' : (Run.openAll read sub.range sub.replicas).run.run c' with ⟨result, c''⟩
  rw [hrun, hrun'] at hsame hleft
  obtain rfl : Except.ok opened = result := hsame
  refine ⟨opened, c'', hrun', ?_, before ++ [sub], hplan₂, hc₂ ▸ hleft⟩
  rw [List.forall₂_map_right_iff, List.forall₂_same]
  exact fun answer _ => Delivery.of_ofAnswer Run _ answer

/-- **A range read gets of each sub-range** what the stores of its replicas have meanwhile. -/
theorem reading_deliveries {before : List SubRange} (hplan : plan = before ++ pending) {c₁ : Cluster}
    (hc₁ : afterSlices read c before = c₁) (hm : Mirrors k n w c₁) (hdeadline : c₁.deadline = none) :
    MergedScan.Deliveries read.source
      (fun pending => fun c' : Cluster => ⌜Reading read plan c pending c'⌝) pending
      (sentFrom read c₁ pending) ∧
    ∃ w', Later k n w w' ∧
      List.Forall₂ (fun sub ds => ∀ d ∈ ds, Snapshot k w w' read sub.range d) pending
        (sentFrom read c₁ pending) := by
  induction pending generalizing before c₁ w with
  | nil => exact ⟨trivial, w, .refl k n w, .nil⟩
  | cons sub pending ih =>
    obtain ⟨opened, c₂, w₁, hrun, hdeadline₂, hlater, hmirrors, hreplicas, hanswers⟩ :=
      hm.openSlice hdeadline read sub
    have hslice := Cluster.openSlice_of_run hrun
    have hc₂ : afterSlices read c (before ++ [sub]) = c₂ := by
      unfold afterSlices at hc₁ ⊢
      rw [List.foldl_append, hc₁, List.foldl_cons, hslice]
      rfl
    have hplan₂ : plan = (before ++ [sub]) ++ pending := by
      rw [hplan, List.append_assoc]
      rfl
    obtain ⟨hdeliveries, w', hlater', hsnapshots⟩ := ih hplan₂ hc₂ hmirrors hdeadline₂
    have hopen := reading_openAll hplan hc₁ hrun hplan₂ hc₂
    unfold sentFrom
    rw [hslice]
    refine ⟨⟨⟨?_, hopen⟩, hdeliveries⟩, w', hlater.trans hlater', .cons ?_ ?_⟩
    · rw [List.map_map, ← hreplicas]
      exact List.map_congr_left fun answer _ => Delivery.ofAnswer_replica answer
    · intro d hd
      obtain ⟨answer, hanswer, rfl⟩ := List.mem_map.1 hd
      exact (hanswers answer hanswer).mono .refl hlater'.reaches
    · exact hsnapshots.imp fun sub ds h d hd => (h d hd).mono hlater.reaches .refl

/-- **A range read on a cluster is a scan** beside the operations that go on by themselves. -/
theorem scans_rangeRead (hm : Mirrors k n w c) (hdeadline : c.deadline = none) (read : RangeRead τ)
    (range : RowRange) : ∃ w', Later k n w w' ∧
      Scans k w w' read range read.source
        (fun pending => fun c' : Cluster => ⌜Reading read (k.placement.planRange range) c pending c'⌝)
        (sentFrom read c (k.placement.planRange range)) := by
  have hplan : k.placement.planRange range = [] ++ k.placement.planRange range := rfl
  have hstart : afterSlices read c [] = c := rfl
  obtain ⟨hdeliveries, w', hlater, hsnapshots⟩ := reading_deliveries hplan hstart hm hdeadline
  refine ⟨w', hlater, fun _ _ => Triple.pure _ .rfl, fun pending id stage e => ?_, hdeliveries,
    hsnapshots⟩
  refine Run.triple_iff.2 fun c' hreading => ⟨(), _, rfl, ?_⟩
  obtain ⟨before, hplan, halike⟩ := hreading
  exact ⟨before, hplan, halike.trans ⟨_, rfl⟩⟩

/-- **A drained range read through the coordinator** returns what a scan beside earlier operations joins,
and leaves a cluster on which they have gone on. -/
theorem readRange_scans (hm : Mirrors k n w c) (hk : c.coordinator = some k)
    (hdeadline : c.deadline = none) (projection : Projection τ) (table : TableName)
    (range : RowRange) (t : Timestamp) : ∃ w' rows, Later k n w w' ∧
      Scans k w w' ⟨projection, table, t⟩ range (RangeRead.source ⟨projection, table, t⟩)
        (fun pending => fun c' : Cluster =>
          ⌜Reading ⟨projection, table, t⟩ (k.placement.planRange range) c pending c'⌝)
        (sentFrom ⟨projection, table, t⟩ c (k.placement.planRange range)) ∧
      Drained projection.merge
        (sentFrom ⟨projection, table, t⟩ c (k.placement.planRange range)) rows ∧
      ∀ limit, rows.length < limit → ∃ c' w₁,
        (coordinatorService.readRange limit projection table range t).run.run c = (.ok (.ok rows), c') ∧
        Later k n w w₁ ∧ Mirrors k n w₁ c' := by
  obtain ⟨w', hlater, hscan⟩ := scans_rangeRead hm hdeadline ⟨projection, table, t⟩ range
  obtain ⟨rows, hdrained, hyields⟩ :=
    hscan.deliveries.yields projection.merge hscan.close hscan.dropped hscan.ascending
  refine ⟨w', rows, hlater, hscan, hdrained, fun limit hlimit => ?_⟩
  let read : RangeRead τ := ⟨projection, table, t⟩
  let plan := k.placement.planRange range
  have hshows : MergedScan.Shows read.source read.projection.merge
      (fun pending => fun c' : Cluster => ⌜Reading read plan c pending c'⌝)
      (fun cursor => fun c' : Cluster => ⌜ReadingBy read plan c cursor c'⌝)
      fun s => RowCursor.scan ⟨read, s⟩ := shows_rowCursor fun _ => rfl
  -- wherever the read stands, the cluster mirrors a world
  have hclose : ∀ cursor : RowCursor τ, ⦃fun c' => ⌜ReadingBy read plan c cursor c'⌝⦄
      (Cursor.close cursor : Run _) ⦃⇓ _ => fun c' => ⌜∃ w₁, Later k n w w₁ ∧ Mirrors k n w₁ c'⌝⦄ := by
    intro cursor
    refine Run.triple_iff.2 fun c' hreading => ?_
    obtain ⟨a, c'', hrun, hreading'⟩ := Run.triple_iff.1 (RowCursor.close_keeps cursor) c' hreading
    exact ⟨a, c'', hrun, hreading'.mirrors hm hdeadline⟩
  have hcollect := Cursor.collect_spec (hyields hshows) hclose hlimit
  let c₁ : Cluster := { c with telemetry := c.telemetry.count (·.countRequest projection.operation) }
  have hc₁ : ReadingBy read plan c (.scan ⟨read, { pending := plan }⟩) c₁ := ⟨[], rfl, _, rfl⟩
  obtain ⟨⟨result, cursor⟩, c', hrun, rfl, w₁, hlater₁, hmirrors⟩ := Run.run_of_triple hcollect hc₁
  refine ⟨c', w₁, ?_, hlater₁, hmirrors⟩
  unfold Service.readRange
  rw [Run.run_bind_ok (Run.run_openRange hk projection table range t)]
  exact Run.run_bind_ok hrun

end Scans

section Writes

variable {r : Ring} {w₁ : World} {i : Nat} {α : Type} {write : Verb α} {a : α} {table : TableName}
  {cell : Cell} {ts t : Timestamp}

/-- An operation that spares a version goes on to do so. -/
theorem exists_sparing (hreach : Reaches k w w') {op : Operation} (hop : w.operations[i]? = some op)
    (hspares : op.verb.Spares table cell ts) :
    ∃ op', w'.operations[i]? = some op' ∧ op'.verb.Spares table cell ts := by
  induction hreach with
  | refl => exact ⟨op, hop, hspares⟩
  | tail _ hstep ih =>
    obtain ⟨op', hop', hspares'⟩ := ih
    exact hstep.exists_operation (Q := fun v => v.Spares table cell ts) hop' hspares'

/-- When operations have gone on and no other is asked for, the same versions are spared. -/
theorem Later.spared (h : Later k n w w') (hspared : Spared w table cell ts) :
    Spared w' table cell ts := by
  intro op' hop'
  obtain ⟨j, hj⟩ := List.mem_iff_getElem?.1 hop'
  have hlt : j < w.operations.length := by
    rw [← h.length]
    exact (List.getElem?_eq_some_iff.1 hj).1
  obtain ⟨op, hop, hspares⟩ :=
    exists_sparing h.reaches (List.getElem?_eq_getElem hlt) (hspared _ (List.getElem_mem hlt))
  obtain rfl := Option.some.inj (hj.symm.trans hop)
  exact hspares

/-- **A range read through the coordinator sees the writes before it.** On a cluster that mirrors a world
where a write of a cell has been answered, and nothing is asked to remove what it wrote, a drained range
read of the cell at a later time returns its row exactly once, with the cell at the timestamp of the
write or later: provided that of the replicas of the row's sub-range fewer are left out than make a
write quorum. -/
theorem readRange_sees_writes (hplace : k.placement = r.placement) (hempty : w₀.operations = [])
    (hfirst : Reaches k w₀ w₁) (hwrites : write.Writes table cell ts)
    (hwritten : w₁.Answered k i write a) (hthen : Reaches k w₁ w) (hspared : Spared w table cell ts)
    (hm : Mirrors k n w c) (hk : c.coordinator = some k) (hdeadline : c.deadline = none)
    (hrow : range.contains cell.row = true) (hcolumn : range.columns.keeps cell.column = true)
    (hts : ts < t)
    (hfew : List.Forall₂ (fun (sub : SubRange) ds => sub.range.contains cell.row = true →
      ds.countP Delivery.dropped < k.factors.write) (k.placement.planRange range)
      (sentFrom ⟨.latest, table, t⟩ c (k.placement.planRange range))) :
    ∃ rows, (∀ limit, rows.length < limit → ∃ c',
        (coordinatorService.readRange limit .latest table range t).run.run c =
          (.ok (.ok rows), c')) ∧
      ∃ (row : Row Value) (v : Value), copiesOf rows cell.row = [row] ∧
        row.get? cell.column = some v ∧ ts ≤ v.timestamp := by
  obtain ⟨w', rows, hlater, hscan, hdrained, hread⟩ :=
    readRange_scans hm hk hdeadline .latest table range t
  refine ⟨rows, fun limit hlimit => ?_, ?_⟩
  · obtain ⟨c', -, hrun, -⟩ := hread limit hlimit
    exact ⟨c', hrun⟩
  · exact hscan.exists_written hplace hempty hfirst (hlater.spared hspared) hwrites hwritten hthen
      hlater.reaches hdrained hrow hcolumn hts hfew

end Writes

end Interleaving

end QuorumStore
