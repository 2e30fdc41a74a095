import QuorumStore.Bytes
import Std.Data.ExtTreeMap
import Std.Data.ExtTreeSet

/-!
# Cells, values and rows

The data model: a table holds cells, a cell holds timestamped versions.

* pairs are ordered by their first and then by their second component;
* `Cell`: a (row, column) coordinate, ordered by row and then by column.
* `Value`: contents with the timestamp they were written at, ordered by timestamp and then by
  contents, so that of two values one is always the greater.
* `ColumnFilter`: which columns of a row a read returns.
* `Row`: one row of a range read, with a payload for each of its columns.
-/

namespace QuorumStore

open Std

section Pairs

variable {α β : Type} [Ord α] [Ord β]

/-- Pairs are ordered by their first and then by their second component. -/
instance instOrdPair : Ord (α × β) := ⟨compareLex (compareOn Prod.fst) (compareOn Prod.snd)⟩

theorem compare_pair (x y : α × β) : compare x y = (compare x.1 y.1).then (compare x.2 y.2) := rfl

instance instTransOrdPair [TransOrd α] [TransOrd β] : TransOrd (α × β) :=
  inferInstanceAs (TransCmp (compareLex (compareOn Prod.fst) (compareOn Prod.snd)))

instance instLawfulEqOrdPair [LawfulEqOrd α] [LawfulEqOrd β] : LawfulEqOrd (α × β) where
  compare_self {x} := by simp
  eq_of_compare {x y} h := by
    rw [compare_pair, Ordering.then_eq_eq, LawfulEqOrd.compare_eq_iff_eq,
      LawfulEqOrd.compare_eq_iff_eq] at h
    exact Prod.ext h.1 h.2

end Pairs

/-- The logical time of a write. -/
abbrev Timestamp := Int64

/-- The timestamp that garbage-collection sentinels are written at, before every other write. -/
def sentinelTimestamp : Timestamp := -1

/-- A (row, column) coordinate. -/
structure Cell where
  /-- The row key. -/
  row : Bytes
  /-- The column name. -/
  column : Bytes
  deriving DecidableEq

namespace Cell

/-- Cells are ordered by row and then by column. -/
instance : Ord Cell := ⟨compareLex (compareOn Cell.row) (compareOn Cell.column)⟩

theorem compare_def (a b : Cell) :
    compare a b = (compare a.row b.row).then (compare a.column b.column) := rfl

instance : TransOrd Cell :=
  inferInstanceAs (TransCmp (compareLex (compareOn Cell.row) (compareOn Cell.column)))

instance : LawfulEqOrd Cell where
  eq_of_compare {a b} h := by
    rw [compare_def, Ordering.then_eq_eq, LawfulEqOrd.compare_eq_iff_eq,
      LawfulEqOrd.compare_eq_iff_eq] at h
    cases a; cases b; simp_all

/-- Row and column in hexadecimal, with a slash between. -/
def display (c : Cell) : String := c.row.toHex ++ "/" ++ c.column.toHex

/-- The form of a cell in diagnostic texts. -/
def debug (c : Cell) : String := "Cell(" ++ c.display ++ ")"

end Cell

/-- Contents stamped with the time of their write. -/
structure Value where
  /-- What was written. -/
  contents : Bytes
  /-- When it was written. -/
  timestamp : Timestamp
  deriving DecidableEq

namespace Value

/-- Values are ordered by timestamp and then by contents, so two replicas that hold different
contents at one timestamp still agree on the greater value. -/
instance : Ord Value := ⟨compareLex (compareOn Value.timestamp) (compareOn Value.contents)⟩

theorem compare_def (a b : Value) :
    compare a b = (compare a.timestamp b.timestamp).then (compare a.contents b.contents) := rfl

instance : TransOrd Value :=
  inferInstanceAs (TransCmp (compareLex (compareOn Value.timestamp) (compareOn Value.contents)))

instance : LawfulEqOrd Value where
  eq_of_compare {a b} h := by
    rw [compare_def, Ordering.then_eq_eq, LawfulEqOrd.compare_eq_iff_eq,
      LawfulEqOrd.compare_eq_iff_eq] at h
    cases a; cases b; simp_all

/-- The empty value that garbage-collection sentinels hold. -/
def sentinel : Value := ⟨[], sentinelTimestamp⟩

/-- The greater of two values. -/
def newer (a b : Value) : Value := if (compare a b).isLT then b else a

/-- The lesser of two values. -/
def older (a b : Value) : Value := if (compare b a).isLT then b else a

end Value

/-- The columns of a row that a read returns. -/
inductive ColumnFilter where
  /-- Every column. -/
  | all
  /-- The columns of a set. -/
  | only (columns : ExtTreeSet Bytes)
  deriving DecidableEq

namespace ColumnFilter

/-- The filter that keeps the listed columns. -/
def ofList (columns : List Bytes) : ColumnFilter := .only (ExtTreeSet.ofList columns compare)

/-- Whether a column passes the filter. -/
def keeps : ColumnFilter → Bytes → Bool
  | .all, _ => true
  | .only columns, column => columns.contains column

end ColumnFilter

/-- One row of a range read. -/
structure Row (τ : Type) where
  /-- The row key. -/
  key : Bytes
  /-- What the read gives for each column. -/
  columns : ExtTreeMap Bytes τ

namespace Row

variable {τ : Type}

/-- The payload of a column. -/
def get? (r : Row τ) (column : Bytes) : Option τ := r.columns[column]?

/-- Whether the row holds no column. -/
def isEmpty (r : Row τ) : Bool := r.columns.isEmpty

/-- The cells of the row with their payloads, in column order. -/
def cells (r : Row τ) : List (Cell × τ) :=
  r.columns.toList.map fun (column, payload) => (⟨r.key, column⟩, payload)

/-- Whether the row still holds data. A row whose columns are all empty marks a deletion. -/
def isLive (r : Row Value) : Bool := r.columns.toList.any fun (_, v) => !v.contents.isEmpty

end Row

end QuorumStore
