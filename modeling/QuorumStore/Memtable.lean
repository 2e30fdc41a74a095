import QuorumStore.RowRange

/-!
# The versions of a table

Every cell keeps all its versions, keyed by write timestamp. A read at timestamp `t` sees the
versions written strictly before `t`.

* `Memtable.put`, `Memtable.removeVersion`, `Memtable.clear`: the changes.
* `Memtable.latestBefore`, `Memtable.timestampsBefore`: point reads.
* `Memtable.rowCells`, `Memtable.scan`: the cells of a row, and the rows of a range.
* `Projection`: what a range read gives for the versions of one cell.
-/

namespace QuorumStore

open Std

/-- The versions of one cell. -/
abbrev Versions := ExtTreeMap Timestamp Bytes

namespace Versions

/-- The versions written strictly before `t`, oldest first. -/
def before (vs : Versions) (t : Timestamp) : List Value :=
  (vs.toList.filter fun (ts, _) => ts < t).map fun (ts, contents) => ⟨contents, ts⟩

/-- The latest version written strictly before `t`. -/
def latest (vs : Versions) (t : Timestamp) : Option Value := (vs.before t).getLast?

/-- All versions written strictly before `t`. -/
def history (vs : Versions) (t : Timestamp) : ExtTreeSet Value :=
  ExtTreeSet.ofList (vs.before t) compare

/-- The timestamps of all versions written strictly before `t`. -/
def timestamps (vs : Versions) (t : Timestamp) : ExtTreeSet Timestamp :=
  ExtTreeSet.ofList ((vs.before t).map Value.timestamp) compare

end Versions

/-- What a range read gives for each cell. -/
inductive Projection : Type → Type where
  /-- The latest version. -/
  | latest : Projection Value
  /-- Every version. -/
  | history : Projection (ExtTreeSet Value)
  /-- The timestamp of every version. -/
  | timestamps : Projection (ExtTreeSet Timestamp)

namespace Projection

/-- The set if it has a member. -/
def nonempty {α : Type} [Ord α] (s : ExtTreeSet α) : Option (ExtTreeSet α) :=
  if s.isEmpty then none else some s

/-- What the read at `t` gives for the versions of a cell; nothing if none is visible. -/
def project {τ : Type} : Projection τ → Versions → Timestamp → Option τ
  | latest, vs, t => vs.latest t
  | history, vs, t => nonempty (vs.history t)
  | timestamps, vs, t => nonempty (vs.timestamps t)

/-- Combines what two replicas give for one cell. -/
def merge {τ : Type} : Projection τ → τ → τ → τ
  | latest => Value.newer
  | history => (· ∪ ·)
  | timestamps => (· ∪ ·)

/-- The name of the range read. -/
def operation {τ : Type} : Projection τ → String
  | latest => "get_range"
  | history => "get_range_with_history"
  | timestamps => "get_range_of_timestamps"

end Projection

/-- A table of multi-version cells. -/
structure Memtable where
  /-- The versions of every cell that has one. -/
  cells : ExtTreeMap Cell Versions := ∅
  deriving DecidableEq

namespace Memtable

/-- Writes one version; one that exists at that timestamp is replaced. -/
def put (m : Memtable) (cell : Cell) (ts : Timestamp) (contents : Bytes) : Memtable :=
  ⟨m.cells.insert cell ((m.cells.getD cell ∅).insert ts contents)⟩

/-- Whether a cell has a version. -/
def contains (m : Memtable) (cell : Cell) : Bool := m.cells[cell]?.any fun vs => !vs.isEmpty

/-- The latest version of a cell written strictly before `t`. -/
def latestBefore (m : Memtable) (cell : Cell) (t : Timestamp) : Option Value :=
  m.cells[cell]?.bind (·.latest t)

/-- The timestamps of a cell's versions written strictly before `t`. -/
def timestampsBefore (m : Memtable) (cell : Cell) (t : Timestamp) : ExtTreeSet Timestamp :=
  (m.cells[cell]?.map (·.timestamps t)).getD ∅

/-- Removes one version and says whether it was there. A cell without versions is removed too. -/
def removeVersion (m : Memtable) (cell : Cell) (ts : Timestamp) : Bool × Memtable :=
  match m.cells[cell]? with
  | none => (false, m)
  | some vs =>
    let left := vs.erase ts
    (vs.contains ts,
      ⟨if left.isEmpty then m.cells.erase cell else m.cells.insert cell left⟩)

/-- The cells from `first` on, in order. -/
def cellsFrom (m : Memtable) (first : Cell) : List (Cell × Versions) :=
  m.cells.toList.dropWhile fun (cell, _) => (compare cell first).isLT

/-- The cells of a row whose column is kept, in column order. -/
def rowCells (m : Memtable) (row : Bytes) (keep : Bytes → Bool) : List Cell :=
  (((m.cellsFrom ⟨row, []⟩).map Prod.fst).takeWhile fun cell => cell.row = row).filter
    fun cell => keep cell.column

/-- Joins neighbouring cells of one row into that row. -/
def gatherRows {τ : Type} : List (Cell × τ) → List (Row τ)
  | [] => []
  | (cell, payload) :: rest =>
    match gatherRows rest with
    | [] => [⟨cell.row, (∅ : ExtTreeMap Bytes τ).insert cell.column payload⟩]
    | row :: rows =>
      if row.key = cell.row then
        { row with columns := row.columns.insert cell.column payload } :: rows
      else ⟨cell.row, (∅ : ExtTreeMap Bytes τ).insert cell.column payload⟩ :: row :: rows

/-- The rows of a range with what `projection` gives for their selected columns. Columns it gives
nothing for are left out, and so are rows without columns. -/
def scan {τ : Type} (m : Memtable) (range : RowRange) (t : Timestamp)
    (projection : Projection τ) : List (Row τ) :=
  gatherRows
    (((m.cellsFrom ⟨range.start, []⟩).takeWhile fun (cell, _) => range.contains cell.row).filterMap
      fun (cell, vs) =>
        if range.columns.keeps cell.column then (projection.project vs t).map (cell, ·) else none)

/-- The table without any version. -/
def clear (_ : Memtable) : Memtable := {}

/-- How many cells there are. -/
def size (m : Memtable) : Nat := m.cells.size

/-- Whether there is no cell. -/
def isEmpty (m : Memtable) : Bool := m.cells.isEmpty

/-- How many versions there are. -/
def totalVersions (m : Memtable) : Nat := m.cells.foldl (fun n _ vs => n + vs.size) 0

end Memtable

end QuorumStore
