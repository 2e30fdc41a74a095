import QuorumStore.Failure

/-!
# The verbs of a store

* `Verb`: what can be asked of a replica, indexed by the type of the answer.
* `Verb.operation`: its name in logs, counters and failures.
-/

namespace QuorumStore

open Std

/-- A request to a store, indexed by the type of its answer. -/
inductive Verb : Type → Type where
  /-- The latest visible value of every selected cell of some rows. -/
  | getRows (table : TableName) (rows : List Bytes) (columns : ColumnFilter) (t : Timestamp) :
    Verb (ExtTreeMap Cell Value)
  /-- The latest value of each cell before the timestamp asked for it. -/
  | get (table : TableName) (cells : ExtTreeMap Cell Timestamp) : Verb (ExtTreeMap Cell Value)
  /-- The timestamp of the latest value of each cell before the timestamp asked for it. -/
  | getLatestTimestamps (table : TableName) (cells : ExtTreeMap Cell Timestamp) :
    Verb (ExtTreeMap Cell Timestamp)
  /-- The timestamps of all versions of each cell before `t`. -/
  | getAllTimestamps (table : TableName) (cells : ExtTreeSet Cell) (t : Timestamp) :
    Verb (ExtTreeMap Cell (ExtTreeSet Timestamp))
  /-- Writes values at one timestamp. -/
  | put (table : TableName) (values : ExtTreeMap Cell Bytes) (ts : Timestamp) : Verb Unit
  /-- Writes values at their own timestamps. -/
  | putWithTimestamps (table : TableName) (entries : List (Cell × Value)) : Verb Unit
  /-- Writes values at timestamp 0 unless some cell has a version. -/
  | putUnlessExists (table : TableName) (values : ExtTreeMap Cell Bytes) : Verb Unit
  /-- Removes versions. -/
  | delete (table : TableName) (versions : List (Cell × Timestamp)) : Verb Unit
  /-- Writes garbage-collection sentinels. -/
  | addSentinels (table : TableName) (cells : ExtTreeSet Cell) : Verb Unit
  /-- Creates a table, unless it exists, with a limit on the size of values. -/
  | createTable (table : TableName) (maxValueSize : Nat) : Verb Unit
  /-- Removes a table, if it exists. -/
  | dropTable (table : TableName) : Verb Unit
  /-- Removes every version of a table. -/
  | truncateTable (table : TableName) : Verb Unit
  /-- The names of all tables. -/
  | tableNames : Verb (ExtTreeSet TableName)
  /-- The metadata of a table. -/
  | getMetadata (table : TableName) : Verb Bytes
  /-- Replaces the metadata of a table. -/
  | putMetadata (table : TableName) (metadata : Bytes) : Verb Unit
  /-- The metadata of all tables. -/
  | allMetadata : Verb (ExtTreeMap TableName Bytes)
  /-- Compacts a table. -/
  | compact (table : TableName) : Verb Unit
  /-- Prepares a fresh instance. -/
  | prepareFresh : Verb Unit
  /-- Closes the store. -/
  | close : Verb Unit
  /-- Removes every table. -/
  | teardown : Verb Unit

/-- The name of a verb in logs, counters and failures. -/
def Verb.operation {α : Type} : Verb α → String
  | getRows .. => "get_rows"
  | get .. => "get"
  | getLatestTimestamps .. => "get_latest_timestamps"
  | getAllTimestamps .. => "get_all_timestamps"
  | put .. => "put"
  | putWithTimestamps .. => "put_with_timestamps"
  | putUnlessExists .. => "put_unless_exists"
  | delete .. => "delete"
  | addSentinels .. => "add_garbage_collection_sentinel_values"
  | createTable .. => "create_table"
  | dropTable .. => "drop_table"
  | truncateTable .. => "truncate_table"
  | tableNames => "get_all_table_names"
  | getMetadata .. => "get_metadata_for_table"
  | putMetadata .. => "put_metadata_for_table"
  | allMetadata => "get_metadata_for_tables"
  | compact .. => "compact_internally"
  | prepareFresh => "initialize_from_fresh_instance"
  | close => "close"
  | teardown => "teardown"

end QuorumStore
