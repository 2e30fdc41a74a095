import QuorumStore.Memtable
import QuorumStore.Telemetry
import QuorumStore.Verb

/-!
# A store in memory

One replica's tables. Writes are all-or-nothing: a batch is looked at as a whole before any of it
is stored.

* `Store.run`: the answer to a verb and the store after it.
* `Store.scan`: the rows of a range read.
* `Verb.notices`: what a store logs about a verb.
-/

namespace QuorumStore

open Std

/-- A table: its versions, its metadata and the largest value it takes. -/
structure Table where
  /-- The most bytes that a value may have. -/
  maxValueSize : Nat
  /-- Bytes kept for the table's user. -/
  metadata : Bytes := []
  /-- The versions. -/
  data : Memtable := {}
  deriving DecidableEq

namespace Table

/-- Refuses contents that are too long for the table. -/
def checkSize (t : Table) (contents : Bytes) : Except Failure Unit :=
  if t.maxValueSize < contents.length then
    .error (.valueTooLarge contents.length t.maxValueSize)
  else .ok ()

/-- Stores entries one after the other. -/
def store (t : Table) (entries : List (Cell × Value)) : Table :=
  { t with data := entries.foldl (fun m (cell, v) => m.put cell v.timestamp v.contents) t.data }

/-- Stores a batch if each of its values fits. -/
def write (t : Table) (entries : List (Cell × Value)) : Except Failure Table := do
  entries.forM fun (_, v) => t.checkSize v.contents
  return t.store entries

/-- Stores a batch if none of its cells has a version and each value fits. -/
def writeUnlessExists (t : Table) (entries : List (Cell × Value)) : Except Failure Table :=
  match entries.find? fun (cell, _) => t.data.contains cell with
  | some (cell, _) => .error (.keyExists cell)
  | none => t.write entries

end Table

/-- The entries of a map of contents, all written at one timestamp. -/
def entriesAt (values : ExtTreeMap Cell Bytes) (ts : Timestamp) : List (Cell × Value) :=
  values.toList.map fun (cell, contents) => (cell, ⟨contents, ts⟩)

/-- The tables of one replica. -/
structure Store where
  /-- The tables by name. -/
  tables : ExtTreeMap TableName Table := ∅
  deriving DecidableEq

namespace Store

variable {α : Type}

/-- Answers from a table, which has to exist. -/
def query (s : Store) (table : TableName) (f : Table → α) : Except Failure α :=
  match s.tables[table]? with
  | none => .error (.tableNotFound table)
  | some t => .ok (f t)

/-- Changes a table, which has to exist, unless the change fails. -/
def update (s : Store) (table : TableName) (f : Table → Except Failure Table) :
    Except Failure Unit × Store :=
  match s.tables[table]? with
  | none => (.error (.tableNotFound table), s)
  | some t =>
    match f t with
    | .error e => (.error e, s)
    | .ok t' => (.ok (), { s with tables := s.tables.insert table t' })

/-- The values of the listed cells that are visible before `t`. -/
def latestOf (t : Table) (cells : List (Cell × Timestamp)) : ExtTreeMap Cell Value :=
  ExtTreeMap.ofList
    (cells.filterMap fun (cell, ts) => (t.data.latestBefore cell ts).map (cell, ·)) compare

/-- The cells of the listed rows that a filter keeps. -/
def cellsOfRows (t : Table) (rows : List Bytes) (columns : ColumnFilter) : List Cell :=
  rows.flatMap fun row => t.data.rowCells row columns.keeps

/-- The answer to a verb, and the store after it. -/
def run : Verb α → Store → Except Failure α × Store
  | .getRows table rows columns t, s =>
    (s.query table fun tbl => latestOf tbl ((cellsOfRows tbl rows columns).map (·, t)), s)
  | .get table cells, s => (s.query table fun tbl => latestOf tbl cells.toList, s)
  | .getLatestTimestamps table cells, s =>
    (s.query table fun tbl => (latestOf tbl cells.toList).map fun _ v => v.timestamp, s)
  | .getAllTimestamps table cells t, s =>
    (s.query table fun tbl =>
      ExtTreeMap.ofList
        ((cells.toList.map fun cell => (cell, tbl.data.timestampsBefore cell t)).filter
          fun (_, stamps) => !stamps.isEmpty) compare, s)
  | .put table values ts, s => s.update table (·.write (entriesAt values ts))
  | .putWithTimestamps table entries, s => s.update table (·.write entries)
  | .putUnlessExists table values, s => s.update table (·.writeUnlessExists (entriesAt values 0))
  | .delete table versions, s =>
    s.update table fun t =>
      .ok { t with data := versions.foldl (fun m (cell, ts) => (m.removeVersion cell ts).2) t.data }
  | .addSentinels table cells, s =>
    s.update table fun t => .ok (t.store (cells.toList.map (·, Value.sentinel)))
  | .createTable table maxValueSize, s =>
    (.ok (), { s with tables := s.tables.insertIfNew table { maxValueSize } })
  | .dropTable table, s => (.ok (), { s with tables := s.tables.erase table })
  | .truncateTable table, s => s.update table fun t => .ok { t with data := t.data.clear }
  | .tableNames, s => (.ok (ExtTreeSet.ofList s.tables.keys compare), s)
  | .getMetadata table, s => (s.query table (·.metadata), s)
  | .putMetadata table metadata, s => s.update table fun t => .ok { t with metadata }
  | .allMetadata, s => (.ok (s.tables.map fun _ t => t.metadata), s)
  | .compact table, s => (s.query table fun _ => (), s)
  | .prepareFresh, s => (.ok (), s)
  | .close, s => (.ok (), s)
  | .teardown, s => (.ok (), { s with tables := ∅ })

/-- The rows of a range of a table. -/
def scan {τ : Type} (s : Store) (table : TableName) (range : RowRange) (t : Timestamp)
    (projection : Projection τ) : Except Failure (List (Row τ)) :=
  s.query table fun tbl => tbl.data.scan range t projection

/-- How many versions a table holds; none if there is no such table. -/
def versionCount (s : Store) (table : TableName) : Nat :=
  (s.tables[table]?.map fun t => t.data.totalVersions).getD 0

end Store

/-- What a store logs when it answers a verb. -/
def Verb.notices {α : Type} : Verb α → Store → List LogEvent
  | .compact table, s =>
    match s.tables[table]? with
    | none => []
    | some t =>
      [{ level := .debug
         message := "compaction is a no-op for in-memory table " ++ table ++ " ("
           ++ toString t.data.size ++ " cells)" }]
  | _, _ => []

end QuorumStore
