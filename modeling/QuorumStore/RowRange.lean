import QuorumStore.Cell

/-!
# Ranges of rows

A range read covers the rows from an inclusive start to an exclusive end. An empty bound leaves
its side open.

* `RowRange.contains`, `RowRange.isEmpty`: the rows of a range, and whether there can be any.
* `RowRange.clamp`: the part of a range that lies between two bounds.
* `RowRange.resumeAfter`: the rest of a range after a row.
* `Page`: the rows of a page with the key to go on from.
-/

namespace QuorumStore

/-- A forward read over the rows in `[start, stop)`. -/
structure RowRange where
  /-- The first row that belongs to the range; empty for none. -/
  start : Bytes := []
  /-- The first row beyond the range; empty for none. -/
  stop : Bytes := []
  /-- The columns to return. -/
  columns : ColumnFilter := .all
  /-- How many rows the reader wants at a time. -/
  batchHint : Option UInt64 := none
  deriving DecidableEq

namespace RowRange

/-- Every row of a table. -/
def all : RowRange := {}

/-- The rows between two bounds, with all their columns. -/
def between (start stop : Bytes) : RowRange := { start, stop }

/-- Whether the range has no upper bound. -/
def isUnboundedAbove (r : RowRange) : Bool := r.stop.isEmpty

/-- Whether a row belongs to the range. -/
def contains (r : RowRange) (row : Bytes) : Bool :=
  r.start ≤ row && (r.isUnboundedAbove || row < r.stop)

/-- Whether no row can belong to the range. -/
def isEmpty (r : RowRange) : Bool := !r.isUnboundedAbove && r.stop ≤ r.start

/-- The tighter of two exclusive upper bounds, where an empty one is no bound. -/
def tighterStop (a b : Bytes) : Bytes :=
  if a.isEmpty then b else if b.isEmpty then a else if a < b then a else b

/-- The later of two inclusive lower bounds. -/
def tighterStart (a b : Bytes) : Bytes := if a < b then b else a

/-- The part of the range in `[start, stop)`, with the same columns and batch hint, if any row
can remain. -/
def clamp (r : RowRange) (start stop : Bytes) : Option RowRange :=
  let clamped :=
    { r with start := tighterStart r.start start, stop := tighterStop r.stop stop }
  if clamped.isEmpty then none else some clamped

/-- The same range from just after `row` on. -/
def resumeAfter (r : RowRange) (row : Bytes) : RowRange := { r with start := row.successor }

/-- The same range with another choice of columns. -/
def withColumns (r : RowRange) (columns : ColumnFilter) : RowRange := { r with columns }

/-- The same range with a batch hint. -/
def withBatchHint (r : RowRange) (hint : UInt64) : RowRange := { r with batchHint := some hint }

end RowRange

/-- A page of results and the key to go on from, if more results may follow. -/
structure Page (α : Type) where
  /-- The results of the page. -/
  results : List α
  /-- The start of the next page. -/
  nextToken : Option Bytes

/-- Whether more results may follow a page. -/
def Page.hasMore {α : Type} (p : Page α) : Bool := p.nextToken.isSome

end QuorumStore
