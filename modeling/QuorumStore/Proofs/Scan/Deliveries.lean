import QuorumStore.Proofs.Ring.RangePlan
import QuorumStore.Proofs.Scan.Merged
import QuorumStore.Proofs.Scan.Tabulated

/-!
# What replicas deliver to a scan

A scan gets some rows from a replica of a sub-range and then finds their end, or it loses the replica,
when it opens the cursor or later. What it had got until then is merged all the same.

* `Delivery`: the rows a scan gets from a replica, and whether it loses the replica.
* `Delivery.ofAnswer`: what a scan gets through a cursor in memory, or without one.
* `MergedScan.Deliveries`: the deliveries of the replicas of each sub-range.
* `MergedScan.Deliveries.yields`: a scan yields the joins of what is delivered.
* `OpenScan.drain_deliveries`: a drained scan joins what is delivered, sub-range after sub-range.
* `Drained.ascending`: the rows of a drained scan ascend.
* `Drained.exists_combined`: what a row has for a column combines what was delivered.
* `Drained.exists_row`: a row of which a copy was delivered is there once, with its columns.
-/

namespace QuorumStore

open Std Std.Do

/-- What a scan gets from a replica of a sub-range. -/
structure Delivery (τ : Type) where
  /-- The replica. -/
  replica : ReplicaId
  /-- The rows, up to their end or to the failure for which the replica is left out. -/
  rows : List (Row τ)
  /-- Whether the replica is left out. -/
  dropped : Bool

section Answers

variable (m : Type → Type) [Monad m] {ps : PostShape.{0}} [WPMonad m ps] {σ τ : Type}
  [Cursor m σ (Row τ)]

/-- How the reads of a delivery end. -/
def Delivery.ending (d : Delivery τ) (result : Except Failure (Option (Row τ))) : Prop :=
  if d.dropped = true then ∃ e, result = .error e else result = .ok none

/-- The answer to the opening of a cursor comes to a delivery. -/
def Delivery.Of (I : Assertion ps) (answer : ReplicaId × Except Failure σ) (d : Delivery τ) : Prop :=
  answer.1 = d.replica ∧
    match answer.2 with
    | .error _ => d.dropped = true ∧ d.rows = []
    | .ok cursor => Cursor.Gives m (fun _ => I) d.ending d.rows cursor

/-- What a scan gets from a replica with this answer. -/
def Delivery.ofAnswer (answer : ReplicaId × Except Failure (Feed (Row τ))) : Delivery τ :=
  match answer.2 with
  | .error _ => { replica := answer.1, rows := [], dropped := true }
  | .ok feed => { replica := answer.1, rows := feed.given, dropped := feed.breaks }

theorem Delivery.ofAnswer_replica (answer : ReplicaId × Except Failure (Feed (Row τ))) :
    (Delivery.ofAnswer answer).replica = answer.1 := by
  unfold Delivery.ofAnswer
  split <;> rfl

theorem Delivery.of_ofAnswer (I : Assertion ps)
    (answer : ReplicaId × Except Failure (Feed (Row τ))) :
    Delivery.Of m I answer (Delivery.ofAnswer answer) := by
  obtain ⟨id, e | feed⟩ := answer
  · exact ⟨rfl, rfl, rfl⟩
  · exact ⟨rfl, feed.gives⟩

end Answers

variable {m : Type → Type} [Monad m] {ps : PostShape.{0}} [WPMonad m ps] {σ τ : Type}
  [Cursor m σ (Row τ)] {I : List SubRange → Assertion ps} {src : ScanSource m σ}
  {plan : List SubRange} {sent : List (List (Delivery τ))}

namespace MergedScan

/-- The deliveries of the replicas of each sub-range, in the order of the replicas. -/
def Deliveries (src : ScanSource m σ) (I : List SubRange → Assertion ps) :
    List SubRange → List (List (Delivery τ)) → Prop
  | [], [] => True
  | sub :: pending, ds :: sent =>
    (ds.map Delivery.replica = sub.replicas ∧
      ⦃I (sub :: pending)⦄ (src.openAll sub.range sub.replicas)
      ⦃⇓ opened => ⌜List.Forall₂ (Delivery.Of m (I pending)) opened ds⌝ ∧ I pending⦄) ∧
    Deliveries src I pending sent
  | _, _ => False

/-- Deliveries are delivered rows, however they end. -/
theorem Deliveries.opens (h : Deliveries src I plan sent) :
    Opens src I plan (sent.map fun ds => ds.map Delivery.rows) := by
  induction plan generalizing sent with
  | nil =>
    cases sent with
    | nil => trivial
    | cons => exact h.elim
  | cons sub pending ih =>
    cases sent with
    | nil => exact h.elim
    | cons ds sent =>
      obtain ⟨⟨-, hopen⟩, hrest⟩ := h
      refine ⟨Hoare.mono hopen fun opened hopened => ?_, ih hrest⟩
      unfold Opened
      rw [List.forall₂_map_right_iff]
      refine hopened.imp fun answer d hd => ?_
      obtain ⟨id, result⟩ := answer
      cases result with
      | error e => exact hd.2.2
      | ok cursor => exact Cursor.Gives.delivers hd.2

/-- Each sub-range has the deliveries of its replicas. -/
theorem Deliveries.forall₂ (h : Deliveries src I plan sent) :
    List.Forall₂ (fun sub ds => ds.map Delivery.replica = sub.replicas) plan sent := by
  induction plan generalizing sent with
  | nil =>
    cases sent with
    | nil => exact .nil
    | cons => exact h.elim
  | cons sub pending ih =>
    cases sent with
    | nil => exact h.elim
    | cons ds sent => exact .cons h.1.1 (ih h.2)

end MergedScan

/-- The rows of a drained scan: for each sub-range the join of what was delivered of it. -/
def Drained (merge : τ → τ → τ) (sent : List (List (Delivery τ))) (rows : List (Row τ)) : Prop :=
  ∃ merged, List.Forall₂ (fun ds part => Joins merge (ds.flatMap Delivery.rows) part) sent merged ∧
    rows = merged.flatten

/-- **A scan yields the joins of what is delivered**, sub-range after sub-range, as whatever cursor it is
shown. -/
theorem MergedScan.Deliveries.yields (merge : τ → τ → τ)
    (hclose : ∀ pending (s : σ), ⦃I pending⦄ (Cursor.close s : m _) ⦃⇓ _ => I pending⦄)
    (hdropped : ∀ pending id stage e,
      ⦃I pending⦄ (src.dropped id stage e) ⦃⇓ _ => I pending⦄)
    (h : Deliveries src I plan sent)
    (hsent : ∀ ds ∈ sent, ∀ d ∈ ds, d.rows.Pairwise fun a b => a.key < b.key) :
    ∃ rows, Drained merge sent rows ∧ ∀ {κ : Type} [Cursor m κ (Row τ)] {J : κ → Assertion ps}
      {wrap : MergedScan σ τ → κ}, Shows src merge I J wrap →
        Cursor.Yields m J rows (wrap { pending := plan }) := by
  have hsorted : ∀ parts ∈ sent.map fun ds => ds.map Delivery.rows,
      ∀ part ∈ parts, part.Pairwise fun a b => a.key < b.key := by
    intro parts hparts part hpart
    obtain ⟨ds, hds, rfl⟩ := List.mem_map.1 hparts
    obtain ⟨d, hd, rfl⟩ := List.mem_map.1 hpart
    exact hsent ds hds d hd
  obtain ⟨merged, hmerged⟩ := Joins.exists_each merge (sent.map fun ds => ds.map Delivery.rows)
  refine ⟨merged.flatten, ⟨merged, ?_, rfl⟩, fun hshows => ?_⟩
  · rw [List.forall₂_map_left_iff] at hmerged
    exact hmerged.imp fun ds part hpart => List.flatMap_def ▸ hpart
  · exact MergedScan.yields_joins hshows hclose hdropped h.opens hsorted hmerged

/-- **A drained scan joins what is delivered**, sub-range after sub-range. -/
theorem OpenScan.drain_deliveries {projection : Projection τ}
    (hclose : ∀ pending (s : σ), ⦃I pending⦄ (Cursor.close s : m _) ⦃⇓ _ => I pending⦄)
    (hdropped : ∀ pending id stage e,
      ⦃I pending⦄ (src.dropped id stage e) ⦃⇓ _ => I pending⦄)
    (h : MergedScan.Deliveries src I plan sent)
    (hsent : ∀ ds ∈ sent, ∀ d ∈ ds, d.rows.Pairwise fun a b => a.key < b.key) :
    ∃ rows, Drained projection.merge sent rows ∧ ∀ limit, rows.length < limit →
      ⦃I plan⦄
      (Cursor.collect limit (⟨projection.merge, src, { pending := plan }⟩ : OpenScan m σ τ) : m _)
      ⦃⇓ r => ⌜r.1 = .ok rows⌝⦄ := by
  obtain ⟨rows, hdrained, hyields⟩ := h.yields projection.merge hclose hdropped hsent
  refine ⟨rows, hdrained, fun limit hlimit => ?_⟩
  have hshows : MergedScan.Shows src projection.merge I (around I)
      (fun scan => (⟨projection.merge, src, scan⟩ : OpenScan m σ τ)) := ⟨fun _ => rfl, fun _ => rfl⟩
  have hclosed : ∀ s : OpenScan m σ τ,
      ⦃around I s⦄ (Cursor.close s : m _) ⦃⇓ _ => ⌜True⌝⦄ := by
    intro s
    refine Hoare.keep (MergedScan.close_spec (hclose s.scan.pending) s.scan) fun _ => ?_
    exact Triple.pure _ (SPred.pure_intro trivial)
  exact Hoare.result (Cursor.collect_spec (hyields hshows) hclosed hlimit)

/-- Of two lists side by side, each member of one has its counterpart in the other. -/
theorem exists_counterpart {α β : Type} {R : α → β → Prop} {l : List α} {l' : List β}
    (h : List.Forall₂ R l l') {b : β} (hb : b ∈ l') : ∃ a ∈ l, R a b := by
  induction h with
  | nil => cases hb
  | cons hab _ ih =>
    rcases List.mem_cons.1 hb with rfl | hb
    · exact ⟨_, List.mem_cons_self, hab⟩
    · obtain ⟨a, ha, hR⟩ := ih hb
      exact ⟨a, List.mem_cons_of_mem _ ha, hR⟩

namespace Drained

variable {merge : τ → τ → τ} {rows : List (Row τ)} {row : Row τ} {column : Bytes}

/-- The rows of a drained scan come from the joins of sub-ranges. -/
theorem exists_part (h : Drained merge sent rows) (hrow : row ∈ rows) :
    ∃ ds ∈ sent, ∃ part, Joins merge (ds.flatMap Delivery.rows) part ∧ row ∈ part := by
  obtain ⟨merged, hmerged, rfl⟩ := h
  obtain ⟨part, hpart, hmem⟩ := List.mem_flatten.1 hrow
  obtain ⟨ds, hds, hjoins⟩ := exists_counterpart hmerged hpart
  exact ⟨ds, hds, part, hjoins, hmem⟩

/-- A row of a join was delivered by some replica. -/
theorem exists_copy {ds : List (Delivery τ)} {part : List (Row τ)}
    (h : Joins merge (ds.flatMap Delivery.rows) part) (hrow : row ∈ part) :
    ∃ d ∈ ds, ∃ copy ∈ d.rows, copy.key = row.key := by
  obtain ⟨copy, hcopy, hkey⟩ := List.mem_map.1 ((h.keys row.key).1 (List.mem_map_of_mem hrow))
  obtain ⟨d, hd, hmem⟩ := List.mem_flatMap.1 hcopy
  exact ⟨d, hd, copy, hmem, hkey⟩

/-- **The rows of a drained scan ascend** where sub-ranges do, and replicas deliver only rows of
their sub-range. -/
theorem ascending (hplan : plan.Pairwise SubRange.Before)
    (hwithin : List.Forall₂ (fun (sub : SubRange) ds => ∀ d ∈ ds, ∀ copy ∈ d.rows,
      sub.range.contains (Row.key copy) = true) plan sent)
    (h : Drained merge sent rows) : rows.Pairwise fun a b => a.key < b.key := by
  obtain ⟨merged, hmerged, rfl⟩ := h
  induction hwithin generalizing merged with
  | nil =>
    cases hmerged
    exact List.Pairwise.nil
  | @cons sub ds plan sent hsub hwithin ih =>
    obtain ⟨hbefore, hplan⟩ := List.pairwise_cons.1 hplan
    cases hmerged with
    | @cons _ part _ merged hpart hmerged =>
      rw [List.flatten_cons, List.pairwise_append]
      refine ⟨hpart.ascending, ih hplan merged hmerged, fun a ha b hb => ?_⟩
      -- both rows have been delivered, the second one of a later sub-range
      obtain ⟨d, hd, copy, hcopy, hkey⟩ := exists_copy hpart ha
      obtain ⟨ds', hds', part', hpart', hb'⟩ := exists_part ⟨merged, hmerged, rfl⟩ hb
      obtain ⟨d', hd', copy', hcopy', hkey'⟩ := exists_copy hpart' hb'
      obtain ⟨sub', hsub', hin'⟩ := exists_counterpart hwithin hds'
      rw [← hkey, ← hkey']
      exact hbefore sub' hsub' _ _ (hsub d hd copy hcopy) (hin' d' hd' copy' hcopy')

/-- **What a row has for a column** combines what replicas of one sub-range delivered for it. -/
theorem exists_combined {p : Projection τ} (h : Drained p.merge sent rows) (hrow : row ∈ rows)
    {payload : τ} (hget : row.get? column = some payload) : ∃ ds ∈ sent,
      p.Combines ((copiesOf (ds.flatMap Delivery.rows) row.key).filterMap (·.get? column)) payload := by
  obtain ⟨ds, hds, part, hjoins, hmem⟩ := h.exists_part hrow
  exact ⟨ds, hds, hjoins.isMerge.payloads row hmem column payload hget⟩

/-- **A row of which a copy was delivered is there once**, and has for each column of the copy a
payload that combines those delivered. -/
theorem exists_row {p : Projection τ} (h : Drained p.merge sent rows)
    (hascending : rows.Pairwise fun a b => a.key < b.key) {ds : List (Delivery τ)} (hds : ds ∈ sent)
    {d : Delivery τ} (hd : d ∈ ds) {copy : Row τ} (hcopy : copy ∈ d.rows) {x : τ}
    (hx : copy.get? column = some x) : ∃ row payload, copiesOf rows copy.key = [row] ∧
      row.get? column = some payload ∧
      p.Combines ((copiesOf (ds.flatMap Delivery.rows) copy.key).filterMap (·.get? column)) payload ∧
      x ∈ (copiesOf (ds.flatMap Delivery.rows) copy.key).filterMap (·.get? column) := by
  obtain ⟨merged, hmerged, rfl⟩ := h
  obtain ⟨part, hpart, hjoins⟩ := exists_counterpart hmerged.flip hds
  have hdelivered : copy ∈ ds.flatMap Delivery.rows := List.mem_flatMap.2 ⟨d, hd, hcopy⟩
  obtain ⟨row, hrow, hkey⟩ :=
    List.mem_map.1 ((hjoins.keys copy.key).2 (List.mem_map_of_mem hdelivered))
  have hcopies : copy ∈ copiesOf (ds.flatMap Delivery.rows) row.key :=
    List.mem_filter.2 ⟨hdelivered, decide_eq_true hkey.symm⟩
  have hmem : row ∈ merged.flatten := List.mem_flatten_of_mem hpart hrow
  obtain ⟨payload, hget⟩ := Option.isSome_iff_exists.1
    ((hjoins.isMerge.columns row hrow column).2 ⟨copy, hcopies, by rw [hx]; rfl⟩)
  refine ⟨row, payload, ?_, hget, ?_, ?_⟩
  · rcases copiesOf_ascending hascending copy.key with ⟨-, hnot⟩ | ⟨only, -, -, hone⟩
    · exact absurd (hkey ▸ List.mem_map_of_mem hmem) hnot
    · have hcopy : row ∈ copiesOf merged.flatten copy.key :=
        List.mem_filter.2 ⟨hmem, decide_eq_true hkey⟩
      rw [hone] at hcopy ⊢
      rw [List.mem_singleton.1 hcopy]
  · rw [← hkey]
    exact hjoins.isMerge.payloads row hrow column payload hget
  · rw [← hkey]
    exact List.mem_filterMap.2 ⟨copy, hcopies, hx⟩

end Drained

end QuorumStore
