import QuorumStore.Cluster.Fanout
import QuorumStore.Cluster.RangeRead
import QuorumStore.Service

/-!
# The services of a cluster

* `applyToAll`: a side effect on every replica in turn; the first failure ends it.
* `firstAnswer`: each replica in turn until one answers; the last failure is that of the whole.
* `bareService`: a replica's store without the layer of faults in front of it.
* `replicaService`: a replica.
* `coordinatorService`: the coordinator.
-/

namespace QuorumStore

open Std

section InTurn

variable {m : Type → Type} [Monad m]

/-- Calls each replica in turn. The first failure is noted and returned. -/
def applyToAll (call : ReplicaId → m (Except Failure Unit))
    (failed : ReplicaId → Failure → m Unit) : List ReplicaId → m (Except Failure Unit)
  | [] => return .ok ()
  | r :: rest => do
    match ← call r with
    | .ok () => applyToAll call failed rest
    | .error e =>
      failed r e
      return .error e

/-- Calls each replica in turn until one answers. Failures are noted; with none left the last one
is returned, which is `last` at first. -/
def firstAnswer {α : Type} (call : ReplicaId → m (Except Failure α))
    (failed : ReplicaId → Failure → m Unit) (last : Failure) :
    List ReplicaId → m (Except Failure α)
  | [] => return .error last
  | r :: rest => do
    match ← call r with
    | .ok a => return .ok a
    | .error e =>
      failed r e
      firstAnswer call failed e rest

end InTurn

/-- A service of a cluster. -/
abbrev ClusterService := Service Run RowCursor

namespace Run

/-- Asks a replica's store directly. The call takes no time and is not counted. -/
def callStore {α : Type} (id : ReplicaId) (v : Verb α) : Run (Except Failure α) := do
  let c ← get
  match c.replicas[id]? with
  | none => return .error (.noReplicas id)
  | some r =>
    let (result, store) := Store.run v r.store
    set
      { c with
        replicas := c.replicas.insert id { r with store }
        telemetry := c.telemetry.note (v.notices r.store) }
    return result

/-- Opens a range read on a replica's store directly. -/
def openStore {τ : Type} (id : ReplicaId) (read : RangeRead τ) (range : RowRange) :
    Run (Except Failure (RowCursor τ)) := do
  match (← get).replicas[id]? with
  | none => return .error (.noReplicas id)
  | some r =>
    return (r.store.scan read.table range read.time read.projection).map fun rows =>
      .feed { items := rows }

/-- Asks a replica, and waits as long as it takes. -/
def callReplica {α : Type} (id : ReplicaId) (v : Verb α) : Run (Except Failure α) := do
  let c ← get
  match c.admission id with
  | .refused e => return .error e
  | .delayed wait fate =>
    waitUntil (c.now + wait)
    match fate with
    | some e => return .error e
    | none =>
      let (result, c) := (← get).call id v
      set c
      return result

end Run

/-- The log event for a replica that failed while replicas were asked one after the other. -/
def failedInTurn (operation message : String) (replica : ReplicaId) (e : Failure) : LogEvent where
  level := .warn
  message := message
  fields :=
    [("operation", .text operation), ("replica", .text replica), ("error", .text e.message)]

namespace Coordinator

/-- Applies a verb to every replica in turn. -/
def broadcast (c : Coordinator) (v : Verb Unit) : Run (Except Failure Unit) := do
  Run.count (·.startRequest v.operation)
  applyToAll (Run.callReplica · v)
    (fun id e => Run.note (failedInTurn v.operation "broadcast failed" id e)) c.placement.replicas

/-- Asks each replica in turn until one answers. -/
def fallback {α : Type} (c : Coordinator) (v : Verb α) : Run (Except Failure α) := do
  Run.count (·.startRequest v.operation)
  firstAnswer (Run.callReplica · v)
    (fun id e =>
      Run.note (failedInTurn v.operation "fallback read failed, trying next replica" id e))
    (.noReplicas v.operation) c.placement.replicas

/-- Answers a verb. -/
def run {α : Type} (c : Coordinator) : Verb α → Run (Except Failure α)
  | .getRows table rows columns t => (c.getRows table rows columns t).run
  | .get table cells => (c.get table cells).run
  | .getLatestTimestamps table cells => (c.getLatestTimestamps table cells).run
  | .getAllTimestamps table cells t => (c.getAllTimestamps table cells t).run
  | .put table values ts => (c.put table values ts).run
  | .putWithTimestamps table entries => (c.putWithTimestamps table entries).run
  | .putUnlessExists table values => (c.putUnlessExists table values).run
  | .delete table versions => (c.delete table versions).run
  | .addSentinels table cells => (c.addSentinels table cells).run
  | .createTable table maxValueSize => c.broadcast (.createTable table maxValueSize)
  | .dropTable table => c.broadcast (.dropTable table)
  | .truncateTable table => c.broadcast (.truncateTable table)
  | .putMetadata table metadata => c.broadcast (.putMetadata table metadata)
  | .compact table => c.broadcast (.compact table)
  | .prepareFresh => c.broadcast .prepareFresh
  | .close => c.broadcast .close
  | .teardown => c.broadcast .teardown
  | .tableNames => c.fallback .tableNames
  | .getMetadata table => c.fallback (.getMetadata table)
  | .allMetadata => c.fallback .allMetadata

/-- Opens a merged scan over the slices of a range. Nothing is asked of a replica yet. -/
def openRange {τ : Type} (c : Coordinator) (read : RangeRead τ) (range : RowRange) :
    Run (RowCursor τ) := do
  Run.count (·.countRequest read.projection.operation)
  return .scan { read, scan := { pending := c.placement.planRange range } }

end Coordinator

/-- A replica's store without the layer of faults in front of it. -/
def bareService (id : ReplicaId) : ClusterService where
  run v := Run.callStore id v
  openRange projection table range t := Run.openStore id ⟨projection, table, t⟩ range

/-- A replica. -/
def replicaService (id : ReplicaId) : ClusterService where
  run v := Run.callReplica id v
  openRange projection table range t := do
    return (← Run.openOn id ⟨projection, table, t⟩ range).map .feed

/-- The coordinator, as it is set up when it is asked. -/
def coordinatorService : ClusterService where
  run v := do
    match (← get).coordinator with
    | none => return .error (.noReplicas v.operation)
    | some c => c.run v
  openRange projection table range t := do
    match (← get).coordinator with
    | none => return .error (.noReplicas projection.operation)
    | some c => return .ok (← c.openRange ⟨projection, table, t⟩ range)

end QuorumStore
