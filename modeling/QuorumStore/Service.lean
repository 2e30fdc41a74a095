import QuorumStore.Cursor
import QuorumStore.Memtable
import QuorumStore.Verb

/-!
# Services

Replicas and the coordinator of a cluster answer the same verbs and range reads. What is said
here of services needs nothing else of them.

* `Service`: something that answers verbs and opens range reads.
* `Service.readRange`: a whole range.
* `PageError`: why there is no first page: a read has failed, or there is no room for so many rows.
* `Service.firstPage`: the first page of a range, with the key to go on from.
* `Service.forEach`: verbs for several tables, one after the other.
-/

namespace QuorumStore

open Std

/-- Something that answers verbs and opens range reads with cursors `κ`. -/
structure Service (m : Type → Type) (κ : Type → Type) : Type 1 where
  /-- Answers a verb. -/
  run : {α : Type} → Verb α → m (Except Failure α)
  /-- Opens a range read at a timestamp. -/
  openRange : {τ : Type} → Projection τ → TableName → RowRange → Timestamp →
    m (Except Failure (κ τ))

/-- How many rows the first page of a range has if the range has no batch hint. -/
def defaultPageSize : UInt64 := 100

/-- How many rows the first page of a range has: at least one. -/
def RowRange.pageSize (r : RowRange) : Nat := max (r.batchHint.getD defaultPageSize).toNat 1

/-- The most rows that a page can have room for. A row is a key and a map of columns, of 24 bytes
each. -/
def maxPageSize : Nat := roomFor 48

example : maxPageSize = 192153584101141162 := by decide

/-- Why there is no first page. -/
inductive PageError where
  /-- A read has failed. -/
  | failure (e : Failure)
  /-- There is no room for so many rows. This is not answered: it stops who has asked. -/
  | noRoom

namespace Service

variable {m : Type → Type} [Monad m] {κ : Type → Type}

/-- Reads a whole range of fewer than `limit` rows. -/
def readRange {τ : Type} [Cursor m (κ τ) (Row τ)] (s : Service m κ) (limit : Nat)
    (projection : Projection τ) (table : TableName) (range : RowRange) (t : Timestamp) :
    m (Except Failure (List (Row τ))) := do
  match ← s.openRange projection table range t with
  | .error e => return .error e
  | .ok cursor => return (← Cursor.collect limit cursor).1

/-- The page of `size` rows at which a cursor stands. -/
def pageFrom [Cursor m (κ Value) (Row Value)] (cursor : κ Value) (size : Nat) :
    m (Except Failure (Page (Row Value)) × κ Value) := do
  match ← Cursor.read size cursor with
  | (.error e, cursor) => return (.error e, cursor)
  | (.ok (rows, true), cursor) => return (.ok ⟨rows, none⟩, cursor)
  | (.ok (rows, false), cursor) =>
    match ← Cursor.next cursor with
    | (.error e, cursor) => return (.error e, cursor)
    | (.ok none, cursor) => return (.ok ⟨rows, none⟩, cursor)
    | (.ok (some _), cursor) =>
      return (.ok ⟨rows, rows.getLast?.map fun row => row.key.successor⟩, cursor)

/-- The first page of a range. Room for all of it is reserved before the first row is read, however
few rows there are. One row more is read to learn whether any follows. -/
def firstPage [Cursor m (κ Value) (Row Value)] (s : Service m κ) (table : TableName)
    (range : RowRange) (t : Timestamp) : m (Except PageError (Page (Row Value))) := do
  match ← s.openRange .latest table range t with
  | .error e => return .error (.failure e)
  | .ok cursor =>
    if maxPageSize < range.pageSize then return .error .noRoom
    let (page, cursor) ← pageFrom cursor range.pageSize
    let _ ← Cursor.close cursor
    return page.mapError .failure

/-- Replaces the page of a range, or adds it. -/
def setPage (range : RowRange) (page : Page (Row Value)) :
    List (RowRange × Page (Row Value)) → List (RowRange × Page (Row Value))
  | [] => [(range, page)]
  | (other, old) :: rest =>
    if other = range then (range, page) :: rest else (other, old) :: setPage range page rest

/-- The first pages of several ranges, by range. The first failure ends it. -/
def firstPages [Cursor m (κ Value) (Row Value)] (s : Service m κ) (table : TableName)
    (t : Timestamp) : List (RowRange × Page (Row Value)) → List RowRange →
      m (Except PageError (List (RowRange × Page (Row Value))))
  | pages, [] => return .ok pages
  | pages, range :: rest => do
    match ← s.firstPage table range t with
    | .error e => return .error e
    | .ok page => firstPages s table t (setPage range page pages) rest

/-- Asks a verb for each item in turn. The first failure ends it. -/
def forEach {ι : Type} (s : Service m κ) (verb : ι → Verb Unit) :
    List ι → m (Except Failure Unit)
  | [] => return .ok ()
  | i :: rest => do
    match ← s.run (verb i) with
    | .error e => return .error e
    | .ok () => forEach s verb rest

/-- Writes to several tables at one timestamp. -/
def multiPut (s : Service m κ) (tables : ExtTreeMap TableName (ExtTreeMap Cell Bytes))
    (ts : Timestamp) : m (Except Failure Unit) :=
  s.forEach (fun (table, values) => .put table values ts) tables.toList

/-- Creates several tables. -/
def createTables (s : Service m κ) (tables : ExtTreeMap TableName Nat) :
    m (Except Failure Unit) :=
  s.forEach (fun (table, maxValueSize) => .createTable table maxValueSize) tables.toList

/-- Truncates several tables. -/
def truncateTables (s : Service m κ) (tables : ExtTreeSet TableName) : m (Except Failure Unit) :=
  s.forEach Verb.truncateTable tables.toList

/-- Replaces the metadata of several tables. -/
def putMetadataOf (s : Service m κ) (tables : ExtTreeMap TableName Bytes) :
    m (Except Failure Unit) :=
  s.forEach (fun (table, metadata) => .putMetadata table metadata) tables.toList

end Service

end QuorumStore
