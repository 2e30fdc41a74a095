import QuorumStore.Proofs.Cluster.PointReads
import QuorumStore.Proofs.Interleaving.ReadYourWrites
import QuorumStore.Proofs.Quorum.FailFast
import QuorumStore.Proofs.Scan.Deliveries

/-!
# Scans beside other operations

A scan asks the replicas of one sub-range after the other, and calls of operations go on reaching
them meanwhile. A cursor gives the rows that the store of its replica had when it was opened, or the
first of them if it fails on the way. No quorum is asked for; still, where fewer replicas are left out
than make a write quorum, one that has applied an answered write is not.

* `Snapshot`: a delivery from the store that the replica had at some moment.
* `Scans`, `Drains`: a scan whose deliveries are such, and the rows it returns.
* `Scans.exists_holder`: a version that a scan returns some replica had meanwhile.
* `exists_undropped`: of a large set of replicas one is not left out.
* `Scans.exists_written`, `scan_sees_writes`: a scan returns the row of an answered write, once, with
  the version or a later one.
-/

namespace QuorumStore

open Std Std.Do

/-- Where a store has a version, a range read that selects it gives it or a later one. -/
theorem Store.payload?_latest_of_holds {s : Store} {table : TableName} {cell : Cell}
    {ts t : Timestamp} {range : RowRange} (h : s.Holds table cell ts) (hlt : ts < t)
    (hrow : range.contains cell.row = true) (hcolumn : range.columns.keeps cell.column = true) :
    ∃ v, s.payload? ⟨.latest, table, t⟩ range cell.row cell.column = some v ∧ ts ≤ v.timestamp := by
  obtain ⟨tbl, htbl, hversion⟩ := holds_iff.1 h
  obtain ⟨v, hv, hle⟩ := Memtable.exists_latestBefore hversion hlt
  refine ⟨v, ?_, hle⟩
  rw [payload?_latest, if_pos ⟨hrow, hcolumn⟩]
  unfold latest?
  rw [htbl]
  exact hv

/-- What a range read gives for a cell has a version at the timestamp. -/
def Projection.Mentions {τ : Type} : Projection τ → τ → Timestamp → Prop
  | .latest, v, ts => v.timestamp = ts
  | .history, s, ts => ∃ v ∈ s, v.timestamp = ts
  | .timestamps, s, ts => ts ∈ s

theorem Projection.eq_of_nonempty {α : Type} [Ord α] {s x : ExtTreeSet α}
    (h : Projection.nonempty s = some x) : x = s := by
  unfold Projection.nonempty at h
  split at h
  · cases h
  · exact (Option.some.inj h).symm

/-- A range read mentions only versions of the cell. -/
theorem Projection.mem_of_mentions {τ : Type} {p : Projection τ} {vs : Versions}
    {t ts : Timestamp} {x : τ} (h : p.project vs t = some x) (hmentions : p.Mentions x ts) :
    ts ∈ vs := by
  have hbefore : ∀ {v : Value}, v ∈ vs.before t → v.timestamp ∈ vs := by
    intro v hv
    exact ExtTreeMap.mem_iff_isSome_getElem?.2 (by rw [(Versions.mem_before.1 hv).1]; rfl)
  cases p with
  | latest =>
    obtain rfl : x.timestamp = ts := hmentions
    exact hbefore (List.mem_of_getLast? h)
  | history =>
    obtain rfl := eq_of_nonempty h
    obtain ⟨v, hv, rfl⟩ := hmentions
    exact hbefore (mem_setOfList.1 hv)
  | timestamps =>
    obtain rfl := eq_of_nonempty h
    exact (Versions.mem_timestamps.1 hmentions).1

/-- A combination mentions what one of its parts mentions. -/
theorem Projection.Combines.exists_mentions {τ : Type} {p : Projection τ} {parts : List τ} {x : τ}
    {ts : Timestamp} (h : p.Combines parts x) (hmentions : p.Mentions x ts) :
    ∃ part ∈ parts, p.Mentions part ts := by
  cases p with
  | latest => exact ⟨x, h.1, hmentions⟩
  | history =>
    obtain ⟨v, hv, hts⟩ := hmentions
    obtain ⟨part, hpart, hmem⟩ := (h v).1 hv
    exact ⟨part, hpart, v, hmem, hts⟩
  | timestamps => exact (h ts).1 hmentions

/-- A store of which a range read mentions a version has it. -/
theorem Store.holds_of_mentions {τ : Type} {s : Store} {read : RangeRead τ} {range : RowRange}
    {cell : Cell} {ts : Timestamp} {x : τ}
    (h : s.payload? read range cell.row cell.column = some x)
    (hmentions : read.projection.Mentions x ts) : s.Holds read.table cell ts := by
  obtain ⟨tbl, htbl, hx⟩ := Option.bind_eq_some_iff.1 h
  refine holds_iff.2 ⟨tbl, htbl, ?_⟩
  unfold Memtable.payload? at hx
  split at hx
  · obtain ⟨vs, hvs, hproject⟩ := Option.bind_eq_some_iff.1 hx
    have hmem := Projection.mem_of_mentions hproject hmentions
    unfold Memtable.version?
    rw [hvs]
    exact ExtTreeMap.mem_iff_isSome_getElem?.1 hmem
  · cases hx

/-- A value that is at most another is not later. -/
theorem Value.timestamp_le_of_isLE {a b : Value} (h : (compare a b).isLE = true) :
    a.timestamp ≤ b.timestamp := by
  rw [Value.compare_def] at h
  refine Std.not_lt.1 fun hlt => ?_
  rw [compare_eq_gt.2 hlt] at h
  cases h

namespace Interleaving

section Snapshots

variable {m : Type → Type} [Monad m] {ps : PostShape.{0}} [WPMonad m ps] {σ τ : Type}
  [Cursor m σ (Row τ)] {I : List SubRange → Assertion ps} {src : ScanSource m σ}
  {sent : List (List (Delivery τ))} {c : Coordinator} {w w' : World} {read : RangeRead τ}
  {range : RowRange} {d : Delivery τ} {copy : Row τ} {column : Bytes} {x : τ}

/-- A delivery of what the store of the replica had at some moment between two worlds: all its rows of
the range, or the first of them where the replica was left out. -/
def Snapshot (c : Coordinator) (w w' : World) (read : RangeRead τ) (range : RowRange)
    (d : Delivery τ) : Prop :=
  ∃ w₁, Reaches c w w₁ ∧ Reaches c w₁ w' ∧ d.rows <+: (w₁.stores d.replica).rows read range ∧
    (d.dropped = false →
      (w₁.stores d.replica).scan read.table range read.time read.projection = .ok d.rows)

/-- A scan through a coordinator between two worlds, with what it gets from each replica. While
sub-ranges are pending `I` holds of them. -/
structure Scans (c : Coordinator) (w w' : World) (read : RangeRead τ) (range : RowRange)
    (src : ScanSource m σ) (I : List SubRange → Assertion ps) (sent : List (List (Delivery τ))) :
    Prop where
  close : ∀ pending (s : σ), ⦃I pending⦄ (Cursor.close s : m _) ⦃⇓ _ => I pending⦄
  dropped : ∀ pending id stage e, ⦃I pending⦄ (src.dropped id stage e) ⦃⇓ _ => I pending⦄
  deliveries : MergedScan.Deliveries src I (c.placement.planRange range) sent
  snapshots : List.Forall₂ (fun sub ds => ∀ d ∈ ds, Snapshot c w w' read sub.range d)
    (c.placement.planRange range) sent

/-- Draining a scan returns the rows. -/
def Drains (c : Coordinator) (read : RangeRead τ) (range : RowRange) (src : ScanSource m σ)
    (I : List SubRange → Assertion ps) (rows : List (Row τ)) : Prop :=
  ∀ limit, rows.length < limit →
    ⦃I (c.placement.planRange range)⦄
    (Cursor.collect limit (⟨read.projection.merge, src,
      { pending := c.placement.planRange range }⟩ : OpenScan m σ τ) : m _)
    ⦃⇓ r => ⌜r.1 = .ok rows⌝⦄

theorem Snapshot.ascending (h : Snapshot c w w' read range d) :
    d.rows.Pairwise fun a b => a.key < b.key := by
  obtain ⟨w₁, -, -, hstart, -⟩ := h
  exact ((w₁.stores d.replica).rows_tabulates read range).ascending.sublist hstart.sublist

/-- What is delivered was in the store. -/
theorem Snapshot.payload? (h : Snapshot c w w' read range d) (hcopy : copy ∈ d.rows)
    (hx : copy.get? column = some x) : ∃ w₁, Reaches c w w₁ ∧ Reaches c w₁ w' ∧
      (w₁.stores d.replica).payload? read range copy.key column = some x := by
  obtain ⟨w₁, hto, hfrom, hstart, -⟩ := h
  have htable := (w₁.stores d.replica).rows_tabulates read range
  exact ⟨w₁, hto, hfrom, (htable.columns copy (hstart.subset hcopy) column).symm.trans hx⟩

theorem Snapshot.within (h : Snapshot c w w' read range d) :
    ∀ copy ∈ d.rows, range.contains (Row.key copy) = true := by
  intro copy hcopy
  obtain ⟨w₁, -, -, hstart, -⟩ := h
  have htable := (w₁.stores d.replica).rows_tabulates read range
  obtain ⟨column, hsome⟩ := (htable.keys copy.key).1 (List.mem_map_of_mem (hstart.subset hcopy))
  by_contra hout
  rw [Store.payload?_of_not_contains hout] at hsome
  cases hsome

/-- What a scan gets from a replica ascends. -/
theorem Scans.ascending (h : Scans c w w' read range src I sent) :
    ∀ ds ∈ sent, ∀ d ∈ ds, d.rows.Pairwise fun a b => a.key < b.key := by
  intro ds hds d hd
  obtain ⟨sub, -, hsnapshots⟩ := exists_counterpart h.snapshots hds
  exact (hsnapshots d hd).ascending

/-- A scan comes to an end, with the rows that join what it got. -/
theorem Scans.drain (h : Scans c w w' read range src I sent) :
    ∃ rows, Drained read.projection.merge sent rows ∧ Drains c read range src I rows :=
  OpenScan.drain_deliveries h.close h.dropped h.deliveries h.ascending

/-- **What a scan returns some replica had** at a moment of the scan: one of a sub-range with the row. -/
theorem Scans.exists_holder {rows : List (Row τ)} {row : Row τ} {cell : Cell} {ts : Timestamp}
    (h : Scans c w w' read range src I sent) (hdrained : Drained read.projection.merge sent rows)
    (hrow : row ∈ rows) (hkey : row.key = cell.row) (hx : row.get? cell.column = some x)
    (hmentions : read.projection.Mentions x ts) :
    ∃ sub ∈ c.placement.planRange range, sub.range.contains cell.row = true ∧
      ∃ id ∈ sub.replicas, ∃ w₁, Reaches c w w₁ ∧ Reaches c w₁ w' ∧
        (w₁.stores id).Holds read.table cell ts := by
  obtain ⟨ds, hds, hcombines⟩ := hdrained.exists_combined hrow hx
  obtain ⟨part, hpart, hpartMentions⟩ := hcombines.exists_mentions hmentions
  obtain ⟨copy, hcopy, hget⟩ := List.mem_filterMap.1 hpart
  obtain ⟨hdelivered, hsame⟩ := List.mem_filter.1 hcopy
  obtain ⟨d, hd, hmem⟩ := List.mem_flatMap.1 hdelivered
  obtain ⟨sub, hsub, hreplicas, hsnapshots⟩ := exists_counterpart
    (List.Forall₂.mp (fun _ _ => And.intro) h.deliveries.forall₂ h.snapshots) hds
  have hcopyKey : copy.key = cell.row := (of_decide_eq_true hsame).trans hkey
  have hin := (hsnapshots d hd).within copy hmem
  obtain ⟨w₁, hto, hfrom, hpayload⟩ := (hsnapshots d hd).payload? hmem hget
  rw [hcopyKey] at hin hpayload
  refine ⟨sub, hsub, hin, d.replica, ?_, w₁, hto, hfrom,
    Store.holds_of_mentions hpayload hpartMentions⟩
  rw [← hreplicas]
  exact List.mem_map_of_mem hd

end Snapshots

/-- **Of a large set of replicas one is not left out.** -/
theorem exists_undropped {τ : Type} {ds : List (Delivery τ)} {A : Finset ReplicaId}
    (hA : A ⊆ (ds.map Delivery.replica).toFinset) (hfew : ds.countP Delivery.dropped < A.card) :
    ∃ d ∈ ds, d.replica ∈ A ∧ d.dropped = false := by
  by_contra hnone
  push Not at hnone
  -- otherwise the set is among those left out
  have hall : A ⊆ ((ds.filter Delivery.dropped).map Delivery.replica).toFinset := by
    intro id hid
    obtain ⟨d, hd, rfl⟩ := List.mem_map.1 (List.mem_toFinset.1 (hA hid))
    have hdropped : d.dropped = true := Bool.eq_true_of_not_eq_false (hnone d hd hid)
    exact List.mem_toFinset.2 (List.mem_map_of_mem (List.mem_filter.2 ⟨hd, hdropped⟩))
  have hcard := (Finset.card_le_card hall).trans (List.toFinset_card_le _)
  rw [List.length_map, ← List.countP_eq_length_filter] at hcard
  omega

section Writes

variable {m : Type → Type} [Monad m] {ps : PostShape.{0}} [WPMonad m ps] {σ : Type}
  [Cursor m σ (Row Value)] {I : List SubRange → Assertion ps} {src : ScanSource m σ}
  {sent : List (List (Delivery Value))} {c : Coordinator} {r : Ring} {w w₀ w₁ w₂ : World} {i : Nat}
  {α : Type} {write : Verb α} {a : α} {table : TableName} {cell : Cell} {ts t : Timestamp}
  {range : RowRange}

/-- A replica that has the version when the scan begins delivers its row, with the version or a later
one, unless it is left out. -/
theorem Snapshot.exists_copy {w w' : World} {d : Delivery Value}
    (h : Snapshot c w w' ⟨.latest, table, t⟩ range d) (hspared : Spared w' table cell ts)
    (hheld : (w.stores d.replica).Holds table cell ts) (hts : ts < t)
    (hrow : range.contains cell.row = true) (hcolumn : range.columns.keeps cell.column = true)
    (hkept : d.dropped = false) : ∃ copy ∈ d.rows, copy.key = cell.row ∧
      ∃ x : Value, copy.get? cell.column = some x ∧ ts ≤ x.timestamp := by
  obtain ⟨w₁, hto, hfrom, -, hwhole⟩ := h
  have hholds := holds_of_reaches hto (spared_of_reaches hfrom hspared) hheld
  obtain ⟨x, hx, hle⟩ := Store.payload?_latest_of_holds hholds hts hrow hcolumn
  have htable := (w₁.stores d.replica).rows_tabulates ⟨.latest, table, t⟩ range
  have hrows : (w₁.stores d.replica).rows ⟨.latest, table, t⟩ range = d.rows := by
    unfold Store.rows
    rw [hwhole hkept]
  rw [hrows] at htable
  obtain ⟨copy, hcopy, hkey⟩ :=
    List.mem_map.1 ((htable.keys cell.row).2 ⟨cell.column, by rw [hx]; rfl⟩)
  refine ⟨copy, hcopy, hkey, x, ?_, hle⟩
  rw [htable.columns copy hcopy, hkey, hx]

/-- A row with a replica is in a slice of each range that contains it, and the replicas of the slice
are its own. -/
theorem exists_slice {id : ReplicaId} (hplace : c.placement = r.placement)
    (hid : id ∈ c.placement.replicasOf cell.row) (hrow : range.contains cell.row = true) :
    ∃ sub ∈ c.placement.planRange range, sub.range.contains cell.row = true ∧
      sub.range.columns = range.columns ∧ sub.replicas = c.placement.replicasOf cell.row := by
  rw [hplace] at hid ⊢
  have hne : r.tokens ≠ ∅ := by
    intro hempty
    have hid : id ∈ r.replicasOf cell.row := hid
    rw [Ring.replicasOf_of_empty hempty] at hid
    cases hid
  obtain ⟨sub, hsub, hin⟩ := Ring.exists_mem_planRange hne hrow
  obtain ⟨_, _, hclamp⟩ := Ring.clamp_of_mem_planRange hsub
  exact ⟨sub, hsub, hin, (RowRange.clamp_spec hclamp).1,
    (Ring.replicasOf_of_mem_planRange hsub hin).symm⟩

/-- The slices of a range on a ring ascend. -/
theorem planRange_ascending (hplace : c.placement = r.placement) :
    (c.placement.planRange range).Pairwise SubRange.Before := by
  rw [hplace]
  show (r.planRange range).Pairwise SubRange.Before
  exact r.planRange_pairwise range

/-- The rows that a scan joins have the cell of an answered write, once, at its timestamp or later. -/
theorem Scans.exists_written {rows : List (Row Value)} (hplace : c.placement = r.placement)
    (hempty : w₀.operations = []) (hfirst : Reaches c w₀ w₁) (hspared : Spared w₂ table cell ts)
    (hwrites : write.Writes table cell ts) (hwritten : w₁.Answered c i write a)
    (hbefore : Reaches c w₁ w) (hthen : Reaches c w w₂)
    (hscan : Scans c w w₂ ⟨.latest, table, t⟩ range src I sent)
    (hdrained : Drained (Projection.merge .latest) sent rows)
    (hrow : range.contains cell.row = true) (hcolumn : range.columns.keeps cell.column = true)
    (hts : ts < t)
    (hfew : List.Forall₂ (fun (sub : SubRange) ds => sub.range.contains cell.row = true →
      ds.countP Delivery.dropped < c.factors.write) (c.placement.planRange range) sent) :
    ∃ (row : Row Value) (v : Value), copiesOf rows cell.row = [row] ∧
      row.get? cell.column = some v ∧ ts ≤ v.timestamp := by
  obtain ⟨A, hsub, hcard, hA⟩ := written_of_answered (sound_of_reaches hempty hfirst) hwrites hwritten
  obtain ⟨first, hfirstA⟩ := Finset.card_pos.1 (Nat.lt_of_lt_of_le c.factors.write_pos hcard)
  obtain ⟨sub, hslice, hin, hcolumns, hreplicas⟩ :=
    exists_slice hplace (List.mem_toFinset.1 (hsub hfirstA)) hrow
  -- what the replicas of the row's sub-range have delivered
  obtain ⟨ds, hds, hnames, hsnapshots, hfew⟩ := exists_counterpart
    (List.Forall₂.mp (fun _ _ => And.intro) hscan.deliveries.forall₂
      (List.Forall₂.mp (fun _ _ => And.intro) hscan.snapshots hfew)).flip hslice
  -- one that has applied the write has delivered all it has
  obtain ⟨d, hd, hdA, hkept⟩ := exists_undropped (A := A) (by rw [hnames, hreplicas]; exact hsub)
    (Nat.lt_of_lt_of_le (hfew hin) hcard)
  have hspared₁ := spared_of_reaches (hbefore.trans hthen) hspared
  have hheld := holds_of_reaches hbefore (spared_of_reaches hthen hspared)
    (holds_of_applied hempty hfirst hspared₁ (hA d.replica hdA))
  obtain ⟨copy, hcopy, hkey, x, hx, hle⟩ :=
    (hsnapshots d hd).exists_copy hspared hheld hts hin (hcolumns ▸ hcolumn) hkept
  have hascending := hdrained.ascending (planRange_ascending hplace)
    (hscan.snapshots.imp fun sub ds h d hd => (h d hd).within)
  -- the row has the greatest of the values delivered, so none before that of the copy
  obtain ⟨row, v, hone, hget, ⟨-, hgreatest⟩, hmem⟩ :=
    hdrained.exists_row hascending hds hd hcopy hx
  refine ⟨row, v, hkey ▸ hone, hget, ?_⟩
  exact Std.le_trans hle (Value.timestamp_le_of_isLE (hgreatest x hmem))

/-- **Scans see the writes before them.** On a ring, if a write of a cell has been answered and no
operation is asked to remove what it wrote, then a scan that begins after that, of a range with the
cell's row and column and at a later time, returns when it is drained the row of the cell exactly
once, and has the cell at the timestamp of the write or later: provided that of the replicas of the
row's sub-range it leaves out fewer than make a write quorum, at whatever point it loses them. -/
theorem scan_sees_writes (hplace : c.placement = r.placement) (hempty : w₀.operations = [])
    (hfirst : Reaches c w₀ w₁) (hspared : Spared w₂ table cell ts)
    (hwrites : write.Writes table cell ts) (hwritten : w₁.Answered c i write a)
    (hthen : Reaches c w₁ w₂) (hscan : Scans c w₁ w₂ ⟨.latest, table, t⟩ range src I sent)
    (hrow : range.contains cell.row = true) (hcolumn : range.columns.keeps cell.column = true)
    (hts : ts < t)
    (hfew : List.Forall₂ (fun (sub : SubRange) ds => sub.range.contains cell.row = true →
      ds.countP Delivery.dropped < c.factors.write) (c.placement.planRange range) sent) :
    ∃ rows, Drains c ⟨.latest, table, t⟩ range src I rows ∧
      ∃ (row : Row Value) (v : Value), copiesOf rows cell.row = [row] ∧
        row.get? cell.column = some v ∧ ts ≤ v.timestamp := by
  obtain ⟨rows, hdrained, hcollect⟩ := hscan.drain
  exact ⟨rows, hcollect, hscan.exists_written hplace hempty hfirst hspared hwrites hwritten .refl hthen
    hdrained hrow hcolumn hts hfew⟩

end Writes

section TwoTokens

variable {τ : Type}

/-- Cursors over the stores of a world; some replicas do not open theirs. -/
def World.source (w : World) (read : RangeRead τ) (lost : ReplicaId → Bool) :
    ScanSource Id (Feed (Row τ)) where
  openAll range ids := ids.map fun id =>
    (id, if lost id then .error .timeout else read.answer range (w.stores id))
  dropped _ _ _ := pure ()

/-- What a replica delivers through such a cursor. -/
def World.delivery (w : World) (read : RangeRead τ) (lost : ReplicaId → Bool) (range : RowRange)
    (id : ReplicaId) : Delivery τ :=
  if lost id then { replica := id, rows := [], dropped := true }
  else
    match (w.stores id).scan read.table range read.time read.projection with
    | .error _ => { replica := id, rows := [], dropped := true }
    | .ok rows => { replica := id, rows, dropped := false }

theorem World.delivery_replica (w : World) (read : RangeRead τ) (lost : ReplicaId → Bool)
    (range : RowRange) (id : ReplicaId) : (w.delivery read lost range id).replica = id := by
  unfold World.delivery
  split
  · rfl
  · split <;> rfl

theorem World.delivery_of (w : World) (read : RangeRead τ) (lost : ReplicaId → Bool)
    (range : RowRange) (id : ReplicaId) : Delivery.Of Id (⌜True⌝ : Assertion .pure)
      (id, if lost id then .error .timeout else read.answer range (w.stores id))
      (w.delivery read lost range id) := by
  unfold World.delivery RangeRead.answer
  by_cases hlost : lost id = true
  · simp only [if_pos hlost]
    exact ⟨rfl, rfl, rfl⟩
  · simp only [if_neg hlost]
    cases (w.stores id).scan read.table range read.time read.projection with
    | error e => exact ⟨rfl, rfl, rfl⟩
    | ok rows => exact ⟨rfl, Feed.yields rows⟩

theorem World.delivery_snapshot {c : Coordinator} {w w₁ w' : World} (hto : Reaches c w w₁)
    (hfrom : Reaches c w₁ w') (read : RangeRead τ) (lost : ReplicaId → Bool) (range : RowRange)
    (id : ReplicaId) : Snapshot c w w' read range (w₁.delivery read lost range id) := by
  refine ⟨w₁, hto, hfrom, ?_⟩
  unfold World.delivery Store.rows
  split
  · exact ⟨List.nil_prefix, fun h => by cases h⟩
  · cases hscan : (w₁.stores id).scan read.table range read.time read.projection with
    | error e => exact ⟨List.nil_prefix, fun h => by cases h⟩
    | ok rows =>
      dsimp only
      rw [hscan]
      exact ⟨List.prefix_rfl, fun _ => rfl⟩

/-- A scan of the stores at one moment of a run. -/
theorem scans_source {c : Coordinator} {w w₁ w' : World} (hto : Reaches c w w₁)
    (hfrom : Reaches c w₁ w') (read : RangeRead τ) (range : RowRange) (lost : ReplicaId → Bool) :
    Scans c w w' read range (w₁.source read lost) (fun _ => ⌜True⌝)
      ((c.placement.planRange range).map fun sub =>
        sub.replicas.map (w₁.delivery read lost sub.range)) := by
  refine ⟨fun _ _ => Triple.pure _ .rfl, fun _ _ _ _ => Triple.pure _ .rfl, ?_, ?_⟩
  · induction c.placement.planRange range with
    | nil => trivial
    | cons sub plan ih =>
      refine ⟨⟨?_, Hoare.pure ?_ .rfl⟩, ih⟩
      · rw [List.map_map]
        exact List.map_id'' (fun id => w₁.delivery_replica read lost sub.range id) sub.replicas
      · rw [List.forall₂_map_left_iff, List.forall₂_map_right_iff, List.forall₂_same]
        exact fun id _ => w₁.delivery_of read lost sub.range id
  · rw [List.forall₂_map_right_iff, List.forall₂_same]
    intro sub _ d hd
    obtain ⟨id, -, rfl⟩ := List.mem_map.1 hd
    exact World.delivery_snapshot hto hfrom read lost sub.range id

/-- The cell is written at both replicas of its row. A scan that loses one of them has it from the
other. -/
theorem scan_sees_writes_twoTokens : ∃ (c : Coordinator) (w₁ : World) (rows : List (Row Value)),
    c = Coordinator.twoTokens
      { replication := 2, read := 1, write := 2
        read_pos := Nat.one_pos, read_le := Nat.two_pos
        write_pos := Nat.two_pos, write_le := Nat.one_lt_two } ∧
    Reaches c trioStart w₁ ∧ w₁.Answered c 0 trioPut () ∧
    Drains c ⟨.latest, "t", 9⟩ {} (w₁.source ⟨.latest, "t", 9⟩ fun id => id = "a")
      (fun _ => ⌜True⌝) rows ∧
    ∃ (row : Row Value) (v : Value), copiesOf rows [1] = [row] ∧ row.get? [2] = some v ∧
      5 ≤ v.timestamp := by
  let c := Coordinator.twoTokens { replication := 2, read := 1, write := 2 }
  obtain ⟨r, hring, hreplicas⟩ : ∃ r : Ring, c.placement = r.placement ∧
      r.replicasOf [1] = ["a", "b"] := ⟨_, rfl, by decide⟩
  have hput : ∀ call ∈ [(0, "a", trioPutCall), (1, "b", trioPutCall)], call ∈ c.calls trioPut :=
    fun call h => h
  have hrun : ∃ w₁, Reaches c trioStart w₁ ∧ w₁.Answered c 0 trioPut () ∧
      Spared w₁ "t" ⟨[1], [2]⟩ 5 ∧ ∃ tbl, (w₁.stores "b").tables["t"]? = some tbl := by
    refine ⟨_, .tail (.tail (.tail (.tail (.tail .refl (.ask trioPut))
      (.serve 0 _ 0 "a" trioPutCall rfl (hput _ (.head _)) (by decide)))
      (.serve 0 _ 1 "b" trioPutCall rfl (hput _ (.tail _ (.head _))) (by decide)))
      (.learn 0 _ _ rfl (.head _) (by decide)))
      (.learn 0 _ _ rfl (.tail _ (.head _)) (by decide)), ⟨_, _, _, rfl, rfl, rfl⟩, ?_, _, rfl⟩
    exact List.forall_mem_singleton.2 trivial
  obtain ⟨w₁, hfirst, hwritten, hspared, tbl, htbl⟩ := hrun
  have hwrites : trioPut.Writes "t" ⟨[1], [2]⟩ 5 := ⟨rfl, by decide, rfl⟩
  have hstay : Reaches c w₁ w₁ := .refl
  have hscan := scans_source hstay hstay ⟨.latest, "t", 9⟩ {} (fun id => id = "a")
  have hkept : ∀ range, (w₁.delivery ⟨.latest, "t", 9⟩ (fun id => id = "a") range "b").dropped =
      false := by
    intro range
    unfold World.delivery Store.scan Store.query
    rw [if_neg (by decide), htbl]
  have hfew : List.Forall₂ (fun (sub : SubRange) ds => sub.range.contains [1] = true →
      ds.countP Delivery.dropped < c.factors.write) (c.placement.planRange {})
      ((c.placement.planRange {}).map fun sub =>
        sub.replicas.map (w₁.delivery ⟨.latest, "t", 9⟩ (fun id => id = "a") sub.range)) := by
    rw [List.forall₂_map_right_iff, List.forall₂_same]
    intro sub hsub hin
    rw [hring] at hsub
    have hslice := Ring.replicasOf_of_mem_planRange hsub hin
    rw [← hslice, hreplicas, List.map_cons, List.map_singleton, List.countP_cons,
      List.countP_singleton, hkept, if_neg Bool.false_ne_true, Nat.zero_add]
    split <;> decide
  obtain ⟨rows, hcollect, hrow⟩ := scan_sees_writes hring rfl hfirst hspared hwrites hwritten
    .refl hscan (by decide) (by decide) (by decide) hfew
  exact ⟨c, w₁, rows, rfl, hfirst, hwritten, hcollect, hrow⟩

end TwoTokens

end Interleaving

end QuorumStore
