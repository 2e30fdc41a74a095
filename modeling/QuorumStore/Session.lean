import QuorumStore.Cluster.Services
import QuorumStore.Quoted
import QuorumStore.Scan.LiveRows
import QuorumStore.Telemetry.Exposition

/-!
# Sessions

A session drives a cluster step by step: it asks its services, changes the faults of its replicas,
lets time pass, keeps named cursors, and looks at what can be observed.

* `Question`, `Answer`: what a service is asked, and what it answers.
* `Step`, `Reply`: one step of a session, and its outcome.
* `Session.step`: the outcome of a step and the session after it.
-/

namespace QuorumStore

open Std

/-- What a service is asked. -/
inductive Question : Type 1 where
  /-- A verb. -/
  | verb {α : Type} (v : Verb α)
  /-- Values for several tables, at one timestamp. -/
  | multiPut (tables : ExtTreeMap TableName (ExtTreeMap Cell Bytes)) (ts : Timestamp)
  /-- Several tables, with their limits on values. -/
  | createTables (tables : ExtTreeMap TableName Nat)
  /-- Several tables to empty. -/
  | truncateTables (tables : ExtTreeSet TableName)
  /-- Metadata for several tables. -/
  | putMetadataOf (tables : ExtTreeMap TableName Bytes)
  /-- The rows of a range. -/
  | rows {τ : Type} (read : RangeRead τ) (range : RowRange)
  /-- The first pages of ranges. -/
  | firstPages (table : TableName) (ranges : List RowRange) (t : Timestamp)

/-- What a service answers. -/
inductive Answer where
  /-- Nothing but success. -/
  | done
  /-- Values by cell. -/
  | values (m : ExtTreeMap Cell Value)
  /-- Timestamps by cell. -/
  | timestamps (m : ExtTreeMap Cell Timestamp)
  /-- Sets of timestamps by cell. -/
  | timestampSets (m : ExtTreeMap Cell (ExtTreeSet Timestamp))
  /-- Names of tables. -/
  | names (s : ExtTreeSet TableName)
  /-- Bytes. -/
  | bytes (b : Bytes)
  /-- Bytes by table. -/
  | metadata (m : ExtTreeMap TableName Bytes)
  /-- Rows with the latest values. -/
  | latestRows (rows : List (Row Value))
  /-- Rows with all values. -/
  | historyRows (rows : List (Row (ExtTreeSet Value)))
  /-- Rows with all timestamps. -/
  | timestampRows (rows : List (Row (ExtTreeSet Timestamp)))
  /-- The first page of each of the ranges asked for. -/
  | pages (pages : List (RowRange × Page (Row Value))) (ranges : List RowRange)

/-- The answer to a verb. -/
def Verb.answer {α : Type} : Verb α → α → Answer
  | getRows .., m | get .., m => .values m
  | getLatestTimestamps .., m => .timestamps m
  | getAllTimestamps .., m => .timestampSets m
  | tableNames, s => .names s
  | getMetadata _, b => .bytes b
  | allMetadata, m => .metadata m
  | put .., _ | putWithTimestamps .., _ | putUnlessExists .., _ | delete .., _ | addSentinels .., _
  | createTable .., _ | dropTable _, _ | truncateTable _, _ | putMetadata .., _ | compact _, _
  | prepareFresh, _ | close, _ | teardown, _ => .done

/-- Rows as an answer. -/
def Projection.answer {τ : Type} : Projection τ → List (Row τ) → Answer
  | latest, rows => .latestRows rows
  | history, rows => .historyRows rows
  | timestamps, rows => .timestampRows rows

/-- Asks a service. -/
def ClusterService.ask (s : ClusterService) : Question → Run (Except Failure Answer)
  | .verb v => return (← s.run v).map v.answer
  | .multiPut tables ts => return (← s.multiPut tables ts).map fun _ => .done
  | .createTables tables => return (← s.createTables tables).map fun _ => .done
  | .truncateTables tables => return (← s.truncateTables tables).map fun _ => .done
  | .putMetadataOf tables => return (← s.putMetadataOf tables).map fun _ => .done
  | .rows read range =>
    return (← s.readRange rowLimit read.projection read.table range read.time).map
      read.projection.answer
  | .firstPages table ranges t => do
    match ← s.firstPages table t [] ranges with
    | .ok pages => return .ok (.pages pages ranges)
    | .error (.failure e) => return .error e
    | .error .noRoom => throw .noRoom

/-- Which service is meant. -/
inductive Target where
  /-- The coordinator, or the only replica of a cluster without one. -/
  | main
  /-- A replica. -/
  | replica (id : ReplicaId)
  /-- A replica's store without the layer of faults in front of it. -/
  | bare (id : ReplicaId)

/-- A cursor that a session keeps. -/
inductive NamedCursor where
  /-- Rows with the latest values. -/
  | latest (c : RowCursor Value)
  /-- Rows with all values. -/
  | history (c : RowCursor (ExtTreeSet Value))
  /-- Rows with all timestamps. -/
  | timestamps (c : RowCursor (ExtTreeSet Timestamp))
  /-- Rows with the latest values, read with lookahead. -/
  | lookahead (c : Lookahead (RowCursor Value) Value)
  /-- Live rows, read from a service. -/
  | live (target : Target) (table : TableName) (t : Timestamp) (s : LiveScan (RowCursor Value))

/-- What a cursor is opened for. -/
inductive CursorKind : Type 1 where
  /-- The rows of a range. -/
  | rows {τ : Type} (read : RangeRead τ) (range : RowRange)
  /-- The rows of a range, read with lookahead. -/
  | lookahead (table : TableName) (t : Timestamp) (range : RowRange)
  /-- The live rows of a range, with page sizes other than the coordinator's. -/
  | live (table : TableName) (t : Timestamp) (range : RowRange) (sizes : Option ScanConfig)
  /-- A merged scan over given sub-ranges. -/
  | scan {τ : Type} (read : RangeRead τ) (plan : List SubRange)

/-- One step of a session. -/
inductive Step : Type 1 where
  /-- Asks a service. -/
  | ask (target : Target) (question : Question)
  /-- Asks a service, and gives up after a time. -/
  | abandon (ms : Nat) (target : Target) (question : Question)
  /-- Lets time pass. -/
  | sleep (ms : Nat)
  /-- Changes how a replica misbehaves. -/
  | setFaults (id : ReplicaId) (change : Faults → Faults)
  /-- Injects a failure into a replica, or removes it. -/
  | inject (id : ReplicaId) (failure : Option Failure)
  /-- Moves the coordinator to a newer placement. -/
  | install (placement : Except Failure Placement)
  /-- The time. -/
  | now
  /-- The log since it was last looked at. -/
  | log
  /-- The exposition of the counters. -/
  | metrics
  /-- How many calls each replica has completed. -/
  | completedCalls
  /-- How many versions a replica has of a table. -/
  | versionCount (id : ReplicaId) (table : TableName)
  /-- The diagnostic text of the service that is meant when none is named. -/
  | debug
  /-- The quorum sizes, the page sizes and the version of the placement. -/
  | coordinator
  /-- Everything that the replicas hold. -/
  | dump
  /-- Opens a cursor under a name. -/
  | openCursor (name : String) (target : Target) (kind : CursorKind)
  /-- The next row of a cursor. -/
  | next (name : String)
  /-- Takes the row that a cursor has read ahead. -/
  | take (name : String)
  /-- How many sub-ranges a merged scan has not opened. -/
  | remaining (name : String)
  /-- Reads a cursor to its end and forgets it. -/
  | collect (name : String)
  /-- Closes a cursor. -/
  | closeCursor (name : String)

/-- What a replica holds of one table. -/
structure TableDump where
  /-- The replica. -/
  replica : ReplicaId
  /-- The table. -/
  table : TableName
  /-- How many versions it has. -/
  versions : Nat
  /-- Its metadata. -/
  metadata : Bytes
  /-- Its rows. -/
  rows : List (Row (ExtTreeSet Value))

/-- The outcome of a step. -/
inductive Reply where
  /-- The answer of a service. -/
  | answer (a : Answer)
  /-- A failure. -/
  | failed (e : Failure)
  /-- The time ran out. -/
  | abandoned
  /-- None: whoever drives the session has been stopped. -/
  | stopped
  /-- A number. -/
  | number (n : Nat)
  /-- A text. -/
  | text (s : String)
  /-- Lines of text. -/
  | lines (ls : List String)
  /-- Log events. -/
  | events (es : List LogEvent)
  /-- A number for each replica. -/
  | counts (cs : List (ReplicaId × Nat))
  /-- The set-up of the coordinator. -/
  | setup (c : Coordinator)
  /-- The contents of the replicas. -/
  | contents (ts : List TableDump)
  /-- A row of the latest values, or the end. -/
  | latestRow (row : Option (Row Value))
  /-- A row of all values, or the end. -/
  | historyRow (row : Option (Row (ExtTreeSet Value)))
  /-- A row of all timestamps, or the end. -/
  | timestampRow (row : Option (Row (ExtTreeSet Timestamp)))
  /-- The key of the next row, or the end. -/
  | key (k : Option Bytes)
  /-- The row that was read ahead, with the name of its source. -/
  | taken (name : String) (row : Option (Row Value))
  /-- A batch of live rows, or the end, with the size of its page. -/
  | batch (rows : Option (List (Row Value))) (size : UInt64)
  /-- There is no cursor of that name. -/
  | noCursor
  /-- The step does not apply. -/
  | notApplicable

/-- The outcome of a step that comes to no answer. -/
def Reply.ofHalt : Halt → Reply
  | .abandoned => abandoned
  | .noRoom => stopped

/-- A cluster with named cursors. -/
structure Session where
  /-- The cluster. -/
  cluster : Cluster
  /-- The replica that is meant when none is named and there is no coordinator. -/
  mainReplica : ReplicaId
  /-- The cursors by name. -/
  cursors : ExtTreeMap String NamedCursor := ∅

namespace Session

/-- The service of a target. -/
def service (s : Session) : Target → ClusterService
  | .main => if s.cluster.coordinator.isSome then coordinatorService else replicaService s.mainReplica
  | .replica id => replicaService id
  | .bare id => bareService id

/-- Runs a computation on the cluster. -/
def run {α : Type} (s : Session) (x : Run α) : Except Halt α × Session :=
  let (result, cluster) := x.run.run s.cluster
  (result, { s with cluster })

/-- Runs a computation whose outcome is a reply. -/
def reply (s : Session) (x : Run Reply) : Reply × Session :=
  match s.run x with
  | (.ok r, s) => (r, s)
  | (.error halt, s) => (.ofHalt halt, s)

/-- The reply for an answer. -/
def replyOf : Except Failure Answer → Reply
  | .ok a => .answer a
  | .error e => .failed e

/-- Opens range reads of the latest values on a service, as live-row scans need it. -/
def opener (s : Session) (target : Target) (table : TableName) (t : Timestamp) (range : RowRange) :
    Run (Except Failure (RowCursor Value)) :=
  (s.service target).openRange .latest table range t

/-- The cursor for rows of a projection. -/
def named {τ : Type} : Projection τ → RowCursor τ → NamedCursor
  | .latest, c => .latest c
  | .history, c => .history c
  | .timestamps, c => .timestamps c

/-- Opens a cursor. -/
def openKind (s : Session) (name : String) (target : Target) :
    CursorKind → Run (Except Failure NamedCursor)
  | .rows read range => do
    return (← (s.service target).openRange read.projection read.table range read.time).map
      (named read.projection)
  | .lookahead table t range => do
    return (← s.opener target table t range).map fun cursor =>
      .lookahead { replica := name, cursor }
  | .live table t range sizes => do
    let sizes := sizes.getD ((s.cluster.coordinator.map (·.scan)).getD {})
    return (Pager.of? sizes.startingBatchSize sizes.maxBatchSize).map fun pages =>
      .live target table t { range, pages }
  | .scan read plan => return .ok (named read.projection (.scan { read, scan := { pending := plan } }))

/-- Keeps a cursor under a name. -/
def keep (s : Session) (name : String) (c : NamedCursor) : Session :=
  { s with cursors := s.cursors.insert name c }

/-- Reads one row, and keeps the cursor. -/
def nextRow {τ : Type} (s : Session) (name : String) (projection : Projection τ) (c : RowCursor τ)
    (row : Option (Row τ) → Reply) : Reply × Session :=
  match s.run (Cursor.next c) with
  | (.error halt, s) => (.ofHalt halt, s)
  | (.ok (result, c), s) =>
    (match result with | .ok r => row r | .error e => .failed e, s.keep name (named projection c))

/-- The next row of a named cursor. -/
def next (s : Session) (name : String) : NamedCursor → Reply × Session
  | .latest c => s.nextRow name .latest c .latestRow
  | .history c => s.nextRow name .history c .historyRow
  | .timestamps c => s.nextRow name .timestamps c .timestampRow
  | .lookahead c =>
    match s.run c.peek with
    | (.error halt, s) => (.ofHalt halt, s)
    | (.ok (result, c), s) =>
      (match result with | .ok k => .key k | .error e => .failed e, s.keep name (.lookahead c))
  | .live target table t scan =>
    match s.run (scan.nextBatch (s.opener target table t) rowLimit) with
    | (.error halt, s) => (.ofHalt halt, s)
    | (.ok (result, scan), s) =>
      (match result with
        | .ok (.found rows) => .batch (some rows) scan.currentSize
        | .ok _ => .batch none scan.currentSize
        | .error e => .failed e,
        s.keep name (.live target table t scan))

/-- Reads a cursor to its end. -/
def drain (s : Session) : NamedCursor → Run (Except Failure Answer)
  | .latest c => return (← Cursor.collect rowLimit c).1.map .latestRows
  | .history c => return (← Cursor.collect rowLimit c).1.map .historyRows
  | .timestamps c => return (← Cursor.collect rowLimit c).1.map .timestampRows
  | .lookahead c => return (← Cursor.collect rowLimit c.cursor).1.map .latestRows
  | .live target table t scan =>
    return (← scan.collect (s.opener target table t) rowLimit).1.map .latestRows

/-- Closes a cursor. -/
def closeNamed : NamedCursor → Run NamedCursor
  | .latest c => return .latest (← Cursor.close c)
  | .history c => return .history (← Cursor.close c)
  | .timestamps c => return .timestamps (← Cursor.close c)
  | .lookahead c => return .lookahead (← c.close)
  | .live target table t scan => return .live target table t (← scan.close)

/-- The sub-ranges that a row cursor has not opened. -/
def pendingOf {τ : Type} : RowCursor τ → Reply
  | .feed _ => .notApplicable
  | .scan s => .number s.scan.pending.length

/-- How many sub-ranges a named cursor has not opened. -/
def remaining : NamedCursor → Reply
  | .latest c => pendingOf c
  | .history c => pendingOf c
  | .timestamps c => pendingOf c
  | _ => .notApplicable

/-- The latest timestamp there is. -/
def endOfTime : Timestamp := Int64.maxValue

/-- What a replica holds. -/
def dumpOf (id : ReplicaId) (r : Replica) : List TableDump :=
  r.store.tables.toList.map fun (table, t) =>
    { replica := id, table, versions := t.data.totalVersions, metadata := t.metadata
      rows := t.data.scan .all endOfTime .history }

/-- The diagnostic text of the coordinator, or else of the only replica. -/
def debugText (s : Session) : String :=
  match s.cluster.coordinator with
  | some c => c.debug
  | none =>
    let completed := (s.cluster.replicas[s.mainReplica]?.map (·.completed)).getD 0
    "ChaosKeyValueService \x7b completed: " ++ toString completed ++ ", .. \x7d"

/-- Changes the cluster and has nothing to report. -/
def change (s : Session) (f : Cluster → Cluster) : Reply × Session :=
  (.answer .done, { s with cluster := f s.cluster })

/-- Moves the coordinator to a newer placement. -/
def install (s : Session) (placement : Except Failure Placement) : Reply × Session :=
  match placement, s.cluster.coordinator with
  | .error e, _ => (.failed e, s)
  | .ok _, none => (.notApplicable, s)
  | .ok new, some c =>
    match c.install? new with
    | .error e => (.failed e, s)
    | .ok c' =>
      s.change fun cluster =>
        { cluster with
          coordinator := some c'
          telemetry := cluster.telemetry.note [Placement.installNotice c.placement new] }

/-- The outcome of a step that uses a named cursor. -/
def withCursor (s : Session) (name : String) (f : NamedCursor → Reply × Session) :
    Reply × Session :=
  match s.cursors[name]? with
  | none => (.noCursor, s)
  | some c => f c

/-- The outcome of a step and the session after it. -/
def step (s : Session) : Step → Reply × Session
  | .ask target question => s.reply do return replyOf (← (s.service target).ask question)
  | .abandon ms target question =>
    let deadline := s.cluster.now + ms
    let timed := { s with cluster := { s.cluster with deadline := some deadline } }
    let (r, s) := timed.reply do return replyOf (← (s.service target).ask question)
    (r, { s with cluster := { s.cluster with deadline := none } })
  | .sleep ms => s.reply do
    Run.waitUntil (s.cluster.now + ms)
    return .answer .done
  | .setFaults id f => s.change (·.updateReplica id fun r => { r with faults := f r.faults })
  | .inject id failure => s.change (·.updateReplica id fun r => { r with injected := failure })
  | .install placement => s.install placement
  | .now => (.number s.cluster.now, s)
  | .log =>
    (.events s.cluster.telemetry.log,
      { s with cluster := { s.cluster with telemetry := { s.cluster.telemetry with log := [] } } })
  | .metrics => (.lines s.cluster.telemetry.metrics.exposition, s)
  | .completedCalls => (.counts (s.cluster.replicas.toList.map fun (id, r) => (id, r.completed)), s)
  | .versionCount id table =>
    (.number ((s.cluster.replicas[id]?.map fun r => r.store.versionCount table).getD 0), s)
  | .debug => (.text s.debugText, s)
  | .coordinator =>
    (match s.cluster.coordinator with | some c => .setup c | none => .notApplicable, s)
  | .dump => (.contents (s.cluster.replicas.toList.flatMap fun (id, r) => dumpOf id r), s)
  | .openCursor name target kind =>
    match s.run (s.openKind name target kind) with
    | (.error halt, s) => (.ofHalt halt, s)
    | (.ok (.error e), s) => (.failed e, s)
    | (.ok (.ok c), s) => (.answer .done, s.keep name c)
  | .next name => s.withCursor name (s.next name)
  | .take name =>
    s.withCursor name fun
      | .lookahead c =>
        let (row, c) := c.take
        (.taken c.replica row, s.keep name (.lookahead c))
      | _ => (.notApplicable, s)
  | .remaining name => s.withCursor name fun c => (remaining c, s)
  | .collect name =>
    s.withCursor name fun c =>
      { s with cursors := s.cursors.erase name }.reply do return replyOf (← s.drain c)
  | .closeCursor name =>
    s.withCursor name fun c =>
      match s.run (closeNamed c) with
      | (.error halt, s) => (.ofHalt halt, s)
      | (.ok c, s) => (.answer .done, s.keep name c)

end Session

end QuorumStore
