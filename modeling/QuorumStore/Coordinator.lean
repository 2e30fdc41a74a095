import QuorumStore.Merge
import QuorumStore.Placement.Current
import QuorumStore.Quorum.Request

/-!
# The coordinator

The coordinator answers a verb by asking the replicas that hold the rows concerned. Point reads
and writes need a quorum for each of their units; everything else is asked of one replica after
the other.

* `Coordinator.ofConfig?`, `Coordinator.install?`: setting it up, and moving to a newer placement.
* `Coordinator.getRows` and the other requests: units, policy and calls of each quorum verb.
-/

namespace QuorumStore

open Std

/-- What a coordinator is set up with. -/
structure Coordinator where
  /-- The quorum sizes. -/
  factors : Quorum.Factors
  /-- The page sizes of scans. -/
  scan : ScanConfig := {}
  /-- Where rows are placed. -/
  placement : Placement

namespace Coordinator

/-- The coordinator of a configuration that breaks no rule. -/
def ofConfig? (config : CoordinatorConfig) (placement : Placement) : Except Failure Coordinator :=
  match config.validate with
  | .error fault => .error (.invalidConfig (ConfigError.invalid fault).message)
  | .ok config => do
    let factors ← Quorum.Factors.ofConfig? config.quorum
    return { factors, scan := config.scan, placement }

/-- Moves on to a newer placement. -/
def install? (c : Coordinator) (placement : Placement) : Except Failure Coordinator := do
  return { c with placement := ← c.placement.replaceBy placement }

/-- The coordinator in diagnostic texts. -/
def debug (c : Coordinator) : String :=
  "PartitionedKeyValueService \x7b quorum: " ++ c.factors.debug
    ++ ", scan: ScanConfig \x7b starting_batch_size: " ++ toString c.scan.startingBatchSize
    ++ ", max_batch_size: " ++ toString c.scan.maxBatchSize ++ " \x7d, .. \x7d"

section Requests

variable (c : Coordinator) (table : TableName)

/-- Reads the cells of rows. The units are the rows. -/
def getRows (rows : List Bytes) (columns : ColumnFilter) (t : Timestamp) :
    QuorumRequest Bytes Bytes (ExtTreeMap Cell Value) (ExtTreeMap Cell Value) where
  operation := "get_rows"
  table := table
  mode := .read
  policy := c.factors.readPolicy
  units := rows
  plan := c.placement.group id rows
  unitOf := id
  call := fun rows => .getRows table rows columns t
  empty := ∅
  merge := Merge.latestValues

/-- Reads cells, each at its own time. The units are the cells. -/
def get (cells : ExtTreeMap Cell Timestamp) :
    QuorumRequest (Cell × Timestamp) Cell (ExtTreeMap Cell Value) (ExtTreeMap Cell Value) where
  operation := "get"
  table := table
  mode := .read
  policy := c.factors.readPolicy
  units := cells.keys
  plan := c.placement.group (·.1.row) cells.toList
  unitOf := Prod.fst
  call := fun keys => .get table (ExtTreeMap.ofList keys compare)
  empty := ∅
  merge := Merge.latestValues

/-- Reads the latest timestamps of cells, each at its own time. The units are the cells. -/
def getLatestTimestamps (cells : ExtTreeMap Cell Timestamp) :
    QuorumRequest (Cell × Timestamp) Cell (ExtTreeMap Cell Timestamp)
      (ExtTreeMap Cell Timestamp) where
  operation := "get_latest_timestamps"
  table := table
  mode := .read
  policy := c.factors.readPolicy
  units := cells.keys
  plan := c.placement.group (·.1.row) cells.toList
  unitOf := Prod.fst
  call := fun keys => .getLatestTimestamps table (ExtTreeMap.ofList keys compare)
  empty := ∅
  merge := Merge.latestTimestamps

/-- Reads all timestamps of cells. The units are the cells, and every replica has to answer. -/
def getAllTimestamps (cells : ExtTreeSet Cell) (t : Timestamp) :
    QuorumRequest Cell Cell (ExtTreeMap Cell (ExtTreeSet Timestamp))
      (ExtTreeMap Cell (ExtTreeSet Timestamp)) where
  operation := "get_all_timestamps"
  table := table
  mode := .read
  policy := c.factors.everyReplicaPolicy
  units := cells.toList
  plan := c.placement.group Cell.row cells.toList
  unitOf := id
  call := fun cells => .getAllTimestamps table (ExtTreeSet.ofList cells compare) t
  empty := ∅
  merge := Merge.allTimestamps

/-- Writes values at one timestamp. The units are the cells. -/
def put (values : ExtTreeMap Cell Bytes) (ts : Timestamp) :
    QuorumRequest (Cell × Bytes) Cell Unit Unit where
  operation := "put"
  table := table
  mode := .write
  policy := c.factors.writePolicy
  units := values.keys
  plan := c.placement.group (·.1.row) values.toList
  unitOf := Prod.fst
  call := fun entries => .put table (ExtTreeMap.ofList entries compare) ts
  empty := ()
  merge := Merge.acknowledged

/-- Writes values at their own timestamps. The units are the entries. -/
def putWithTimestamps (entries : List (Cell × Value)) :
    QuorumRequest (Cell × Value) (Cell × Value) Unit Unit where
  operation := "put_with_timestamps"
  table := table
  mode := .write
  policy := c.factors.writePolicy
  units := entries
  plan := c.placement.group (·.1.row) entries
  unitOf := id
  call := .putWithTimestamps table
  empty := ()
  merge := Merge.acknowledged

/-- Writes values unless a cell has a version. The units are the cells. -/
def putUnlessExists (values : ExtTreeMap Cell Bytes) :
    QuorumRequest (Cell × Bytes) Cell Unit Unit where
  operation := "put_unless_exists"
  table := table
  mode := .write
  policy := c.factors.writePolicy
  units := values.keys
  plan := c.placement.group (·.1.row) values.toList
  unitOf := Prod.fst
  call := fun entries => .putUnlessExists table (ExtTreeMap.ofList entries compare)
  empty := ()
  merge := Merge.acknowledged

/-- Removes versions. The units are the versions, and every replica has to answer. -/
def delete (versions : List (Cell × Timestamp)) :
    QuorumRequest (Cell × Timestamp) (Cell × Timestamp) Unit Unit where
  operation := "delete"
  table := table
  mode := .write
  policy := c.factors.everyReplicaPolicy
  units := versions
  plan := c.placement.group (·.1.row) versions
  unitOf := id
  call := .delete table
  empty := ()
  merge := Merge.acknowledged

/-- Writes sentinels. The units are the cells. -/
def addSentinels (cells : ExtTreeSet Cell) : QuorumRequest Cell Cell Unit Unit where
  operation := "add_garbage_collection_sentinel_values"
  table := table
  mode := .write
  policy := c.factors.writePolicy
  units := cells.toList
  plan := c.placement.group Cell.row cells.toList
  unitOf := id
  call := fun cells => .addSentinels table (ExtTreeSet.ofList cells compare)
  empty := ()
  merge := Merge.acknowledged

end Requests

end Coordinator

end QuorumStore
