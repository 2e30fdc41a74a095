import QuorumStore.RowRange
import QuorumStore.Scan.Lookahead

/-!
# Scans merged from several replicas

A scan is planned as disjoint sub-ranges in key order. For the current sub-range one cursor is
open for each covering replica. Rows come in key order: the smallest row read ahead is taken from
every cursor that has it, and its copies are joined. The next sub-range is opened once all cursors
of the current one have ended, failed or been closed. A replica whose cursor does not open, or
fails later, is left out of its sub-range.

* `MergedScan.smallest`: the smallest row read ahead, with ended and failed cursors removed.
* `MergedScan.takeRow`: the joined copies of a row.
* `MergedScan.next`: the next row of the scan.
-/

namespace QuorumStore

open Std

/-- A slice of a scan with the replicas that cover it. -/
structure SubRange where
  /-- The rows of the slice. -/
  range : RowRange
  /-- The ring position that owns the slice. -/
  owner : Bytes := []
  /-- The replicas that hold its rows. -/
  replicas : List ReplicaId
  deriving DecidableEq

/-- Where a scan loses a replica. -/
inductive ScanStage where
  /-- When its cursor is opened. -/
  | opening
  /-- When its cursor is read. -/
  | reading
  deriving DecidableEq

/-- The surroundings of a merged scan: how cursors are opened and what becomes of failures. -/
structure ScanSource (m : Type → Type) (σ : Type) where
  /-- Opens a cursor over a range on each of some replicas, all at the same time. -/
  openAll : RowRange → List ReplicaId → m (List (ReplicaId × Except Failure σ))
  /-- Takes note of a replica that is left out. -/
  dropped : ReplicaId → ScanStage → Failure → m Unit

/-- A merged scan: sub-ranges to come and the cursors of the current one. -/
structure MergedScan (σ τ : Type) where
  /-- The sub-ranges not yet opened. -/
  pending : List SubRange
  /-- The cursors of the current sub-range. -/
  cursors : List (Lookahead σ τ) := []
  /-- Whether the scan was closed. -/
  closed : Bool := false

namespace MergedScan

variable {m : Type → Type} [Monad m] {σ τ : Type}

/-- The smallest row read ahead and the cursors that go on; cursors that have ended or fail are
closed and left out. -/
def smallest [Cursor m σ (Row τ)] (src : ScanSource m σ) :
    Option Bytes → List (Lookahead σ τ) → m (Option Bytes × List (Lookahead σ τ))
  | least, [] => return (least, [])
  | least, c :: cs => do
    match ← c.peek with
    | (.ok (some key), c) =>
      let least := match least with
        | none => key
        | some other => if key < other then key else other
      let (least, cs) ← smallest src (some least) cs
      return (least, c :: cs)
    | (.ok none, c) =>
      let _ ← c.close
      smallest src least cs
    | (.error e, c) =>
      src.dropped c.replica .reading e
      let _ ← c.close
      smallest src least cs

/-- Joins a copy of a row's columns into those gathered so far. -/
def joinColumns (merge : τ → τ → τ) (acc part : ExtTreeMap Bytes τ) : ExtTreeMap Bytes τ :=
  part.foldl
    (fun acc column payload =>
      match acc[column]? with
      | none => acc.insert column payload
      | some existing => acc.insert column (merge existing payload)) acc

/-- Takes the row `key` from every cursor that has read it ahead, and joins the copies. -/
def takeRow (merge : τ → τ → τ) (key : Bytes) :
    ExtTreeMap Bytes τ → List (Lookahead σ τ) → ExtTreeMap Bytes τ × List (Lookahead σ τ)
  | acc, [] => (acc, [])
  | acc, c :: cs =>
    match c.take with
    | (some row, rest) =>
      if row.key = key then
        let (acc, cs) := takeRow merge key (joinColumns merge acc row.columns) cs
        (acc, rest :: cs)
      else
        let (acc, cs) := takeRow merge key acc cs
        (acc, c :: cs)
    | (none, _) =>
      let (acc, cs) := takeRow merge key acc cs
      (acc, c :: cs)

/-- Opens a sub-range: one cursor for each replica that answers. -/
def openSubRange (src : ScanSource m σ) (sub : SubRange) : m (List (Lookahead σ τ)) := do
  let opened ← src.openAll sub.range sub.replicas
  let cursors ← opened.mapM fun (replica, result) =>
    match result with
    | .ok cursor => return [{ replica, cursor }]
    | .error e => do
      src.dropped replica .opening e
      return []
  return cursors.flatten

/-- The next row of the open cursors, or else of the first pending sub-range that has one. -/
def advance [Cursor m σ (Row τ)] (merge : τ → τ → τ) (src : ScanSource m σ) :
    List SubRange → List (Lookahead σ τ) → m (Option (Row τ) × MergedScan σ τ)
  | pending, cursors => do
    match ← smallest src none cursors with
    | (some key, cursors) =>
      let (columns, cursors) := takeRow merge key ∅ cursors
      return (some ⟨key, columns⟩, { pending, cursors })
    | (none, _) =>
      match pending with
      | [] => return (none, { pending := [] })
      | sub :: pending =>
        let cursors ← openSubRange src sub
        advance merge src pending cursors

/-- The next row of the scan, or none at its end and after it was closed. -/
def next [Cursor m σ (Row τ)] (merge : τ → τ → τ) (src : ScanSource m σ) (s : MergedScan σ τ) :
    m (Option (Row τ) × MergedScan σ τ) :=
  if s.closed then return (none, s) else advance merge src s.pending s.cursors

/-- Closes the open cursors and gives up what is pending. -/
def close [Cursor m σ (Row τ)] (s : MergedScan σ τ) : m (MergedScan σ τ) := do
  s.cursors.forM fun c => do
    let _ ← c.close
  return { pending := [], closed := true }

end MergedScan

end QuorumStore
