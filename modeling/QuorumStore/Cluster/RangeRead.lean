import QuorumStore.Cluster.World
import QuorumStore.Scan.Merged

/-!
# Range reads on a cluster

* `Run.openOn`, `Run.openAll`: cursors on one replica, and on several at the same time.
* `ReplicaScan`: a merged scan over the replicas of a cluster.
* `RowCursor`: a cursor over the rows of one replica or of a merged scan.
-/

namespace QuorumStore

variable {τ : Type}

/-- A range read: what is read, and where. -/
structure RangeRead (τ : Type) where
  /-- What is given for each cell. -/
  projection : Projection τ
  /-- The table. -/
  table : TableName
  /-- The timestamp of the read. -/
  time : Timestamp

namespace Cluster

/-- Opens a range read on a replica's store. -/
def openRange (c : Cluster) (id : ReplicaId) (read : RangeRead τ) (range : RowRange) :
    Except Failure (Feed (Row τ)) × Cluster :=
  match c.replicas[id]? with
  | none => (.error (.noReplicas read.projection.operation), c)
  | some r =>
    let (result, r) := r.openRange read.projection read.table range read.time
    (result, { c with replicas := c.replicas.insert id r })

end Cluster

/-- A cursor that is being opened. -/
inductive Opening (τ : Type) where
  /-- It is open, or did not open. -/
  | settled (result : Except Failure (Feed (Row τ)))
  /-- It waits before it fails or reaches the store. -/
  | waiting (due : Nat) (fate : Option Failure)

/-- When an opening has to be attended to. -/
def Opening.due? : Opening τ → Option Nat
  | settled _ => none
  | waiting due _ => some due

namespace Run

/-- Opens a cursor whose wait is over. -/
def settle (id : ReplicaId) (read : RangeRead τ) (range : RowRange) (fate : Option Failure) :
    Run (Except Failure (Feed (Row τ))) := do
  match fate with
  | some e => return .error e
  | none =>
    let (result, c) := (← get).openRange id read range
    set c
    return result

/-- A range read arrives at a replica. If it need not wait it is settled. -/
def beginOpening (read : RangeRead τ) (range : RowRange) (id : ReplicaId) :
    Run (ReplicaId × Opening τ) := do
  let c ← get
  match c.admission id with
  | .refused e => return (id, .settled (.error e))
  | .delayed wait fate =>
    if wait = 0 then return (id, .settled (← settle id read range fate))
    else return (id, .waiting (c.now + wait) fate)

/-- Settles the openings that are due at `t`. -/
def settleDue (read : RangeRead τ) (range : RowRange) (t : Nat) :
    List (ReplicaId × Opening τ) → Run (List (ReplicaId × Opening τ))
  | [] => return []
  | (id, opening) :: rest => do
    let opening ← match opening with
      | .settled result => pure (Opening.settled result)
      | .waiting due fate =>
        if due = t then
          let result ← settle id read range fate
          pure (Opening.settled result)
        else pure (Opening.waiting due fate)
    return (id, opening) :: (← settleDue read range t rest)

/-- Waits for the given times in turn and settles what is due then. -/
def settleAll (read : RangeRead τ) (range : RowRange) :
    List Nat → List (ReplicaId × Opening τ) → Run (List (ReplicaId × Opening τ))
  | [], openings => return openings
  | t :: times, openings => do
    waitUntil t
    settleAll read range times (← settleDue read range t openings)

/-- Opens a range read on each of some replicas, all at the same time. -/
def openAll (read : RangeRead τ) (range : RowRange) (ids : List ReplicaId) :
    Run (List (ReplicaId × Except Failure (Feed (Row τ)))) := do
  let openings ← ids.mapM (beginOpening read range)
  let times := (openings.filterMap fun (_, o) => o.due?).mergeSort
  let openings ← settleAll read range times openings
  return openings.filterMap fun (id, o) =>
    match o with
    | .settled result => some (id, result)
    | .waiting .. => none

/-- Opens a range read on one replica. -/
def openOn (id : ReplicaId) (read : RangeRead τ) (range : RowRange) :
    Run (Except Failure (Feed (Row τ))) := do
  let c ← get
  match c.admission id with
  | .refused e => return .error e
  | .delayed wait fate =>
    waitUntil (c.now + wait)
    settle id read range fate

end Run

/-- The word for the stage of a scan. -/
def ScanStage.name : ScanStage → String
  | opening => "open"
  | reading => "read"

namespace RangeRead

/-- The log event for a replica that a scan leaves out. -/
def dropEvent (read : RangeRead τ) (replica : ReplicaId) (stage : ScanStage) (e : Failure) :
    LogEvent where
  level := .warn
  message := "dropping replica from sub-range"
  fields :=
    [("operation", .text read.projection.operation), ("table", .text read.table),
      ("replica", .text replica), ("stage", .text stage.name), ("error", .text e.message)]

/-- The surroundings of a merged scan on a cluster. -/
def source (read : RangeRead τ) : ScanSource Run (Feed (Row τ)) where
  openAll := Run.openAll read
  dropped replica stage e := do
    Run.note (read.dropEvent replica stage e)
    Run.count (·.countDroppedCursor)

end RangeRead

/-- A merged scan over the replicas of a cluster. -/
structure ReplicaScan (τ : Type) where
  /-- What is read. -/
  read : RangeRead τ
  /-- The state of the scan. -/
  scan : MergedScan (Feed (Row τ)) τ

instance : Cursor Run (ReplicaScan τ) (Row τ) where
  next s := do
    let (row, scan) ← s.scan.next s.read.projection.merge s.read.source
    return (.ok row, { s with scan })
  close s := do
    return { s with scan := ← s.scan.close }

/-- A cursor over rows. -/
inductive RowCursor (τ : Type) where
  /-- The rows of one replica. -/
  | feed (rows : Feed (Row τ))
  /-- The rows of a merged scan. -/
  | scan (s : ReplicaScan τ)

instance : Cursor Run (RowCursor τ) (Row τ) where
  next
    | .feed rows => do
      let (row, rows) ← Cursor.next rows
      return (row, .feed rows)
    | .scan s => do
      let (row, s) ← Cursor.next s
      return (row, .scan s)
  close
    | .feed rows => return .feed (← Cursor.close rows)
    | .scan s => return .scan (← Cursor.close s)

end QuorumStore
