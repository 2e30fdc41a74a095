import QuorumStore.Config
import QuorumStore.Json.Form
import QuorumStore.RowRange

/-!
# JSON forms of the data model

Records are written as objects with their fields in a fixed order. Byte strings are arrays of
numbers.

* instances of `JsonForm` for cells, values, column filters, ranges and configurations.
-/

namespace QuorumStore

open Std JsonValue

/-- Cells have the fields `row` and `column`. -/
instance : JsonForm Cell where
  toJson c := ofFields [("row", JsonForm.toJson c.row), ("column", JsonForm.toJson c.column)]
  ofJson? v := do
    let fields ← v.record? ["row", "column"] 2
    return ⟨← field? fields "row", ← field? fields "column"⟩

/-- Values have the fields `contents` and `timestamp`. -/
instance : JsonForm Value where
  toJson v :=
    ofFields
      [("contents", JsonForm.toJson v.contents), ("timestamp", JsonForm.toJson v.timestamp)]
  ofJson? v := do
    let fields ← v.record? ["contents", "timestamp"] 2
    return ⟨← field? fields "contents", ← field? fields "timestamp"⟩

/-- The filter that keeps every column is the text `All`, every other an object whose only member
`Columns` lists the columns it keeps. -/
instance : JsonForm ColumnFilter where
  toJson
    | .all => .text "All"
    | .only columns => ofFields [("Columns", JsonForm.toJson columns.toList)]
  ofJson?
    | .string (some "All") => some .all
    | .object [(some "All", .null)] => some .all
    | .object [(some "Columns", v)] => (JsonForm.ofJson? v).map ColumnFilter.ofList
    | _ => none

/-- Ranges have the fields `start_inclusive`, `end_exclusive`, `columns` and `batch_hint`, the last
of which may be missing if they are named. -/
instance : JsonForm RowRange where
  toJson r :=
    ofFields
      [("start_inclusive", JsonForm.toJson r.start), ("end_exclusive", JsonForm.toJson r.stop),
        ("columns", JsonForm.toJson r.columns), ("batch_hint", JsonForm.toJson r.batchHint)]
  ofJson? v := do
    let fields ← v.record? ["start_inclusive", "end_exclusive", "columns", "batch_hint"] 4
    return {
      start := ← field? fields "start_inclusive"
      stop := ← field? fields "end_exclusive"
      columns := ← field? fields "columns"
      batchHint := ← fieldOr? fields "batch_hint" none }

/-- Quorum sizes have the fields `replication_factor`, `read_factor` and `write_factor`, each with
its default. -/
instance : JsonForm QuorumConfig where
  toJson c :=
    ofFields
      [("replication_factor", JsonForm.toJson c.replicationFactor),
        ("read_factor", JsonForm.toJson c.readFactor),
        ("write_factor", JsonForm.toJson c.writeFactor)]
  ofJson? v := do
    let fields ← v.record? ["replication_factor", "read_factor", "write_factor"] 0
    let default : QuorumConfig := {}
    return {
      replicationFactor := ← fieldOr? fields "replication_factor" default.replicationFactor
      readFactor := ← fieldOr? fields "read_factor" default.readFactor
      writeFactor := ← fieldOr? fields "write_factor" default.writeFactor }

/-- Page sizes have the fields `starting_batch_size` and `max_batch_size`, each with its default. -/
instance : JsonForm ScanConfig where
  toJson c :=
    ofFields
      [("starting_batch_size", JsonForm.toJson c.startingBatchSize),
        ("max_batch_size", JsonForm.toJson c.maxBatchSize)]
  ofJson? v := do
    let fields ← v.record? ["starting_batch_size", "max_batch_size"] 0
    let default : ScanConfig := {}
    return {
      startingBatchSize := ← fieldOr? fields "starting_batch_size" default.startingBatchSize
      maxBatchSize := ← fieldOr? fields "max_batch_size" default.maxBatchSize }

/-- Configurations have the fields `quorum` and `scan`, each with its default. -/
instance : JsonForm CoordinatorConfig where
  toJson c := ofFields [("quorum", JsonForm.toJson c.quorum), ("scan", JsonForm.toJson c.scan)]
  ofJson? v := do
    let fields ← v.record? ["quorum", "scan"] 0
    return { quorum := ← fieldOr? fields "quorum" {}, scan := ← fieldOr? fields "scan" {} }

end QuorumStore
