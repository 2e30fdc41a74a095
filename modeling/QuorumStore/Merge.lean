import QuorumStore.Cell

/-!
# Folding partial answers into one

Each replica answers for some cells; the answers of several are folded into one map. Every fold
here is a join of a semilattice, so neither the order of the answers nor repetitions matter.

* `Merge.joinWith`: adds one answer to the accumulated one, joining what both hold for a cell.
* `Merge.latestValues`, `Merge.latestTimestamps`, `Merge.allTimestamps`: the joins of the reads.
-/

namespace QuorumStore.Merge

open Std

variable {κ α : Type} [Ord κ] [TransOrd κ]

/-- Joins one entry into a map. -/
def joinEntry (join : α → α → α) (acc : ExtTreeMap κ α) (key : κ) (x : α) : ExtTreeMap κ α :=
  match acc[key]? with
  | none => acc.insert key x
  | some existing => acc.insert key (join existing x)

/-- Joins every entry of `part` into `acc`. -/
def joinWith (join : α → α → α) (acc part : ExtTreeMap κ α) : ExtTreeMap κ α :=
  part.foldl (joinEntry join) acc

/-- The later of two timestamps. -/
def laterTimestamp (a b : Timestamp) : Timestamp := if a < b then b else a

/-- Keeps the greatest value of each cell. -/
def latestValues : ExtTreeMap Cell Value → ExtTreeMap Cell Value → ExtTreeMap Cell Value :=
  joinWith Value.newer

/-- Keeps the latest timestamp of each cell. -/
def latestTimestamps :
    ExtTreeMap Cell Timestamp → ExtTreeMap Cell Timestamp → ExtTreeMap Cell Timestamp :=
  joinWith laterTimestamp

/-- Unites the timestamps of each cell. -/
def allTimestamps :
    ExtTreeMap Cell (ExtTreeSet Timestamp) → ExtTreeMap Cell (ExtTreeSet Timestamp) →
      ExtTreeMap Cell (ExtTreeSet Timestamp) :=
  joinWith (· ∪ ·)

/-- A write has no answer but its success. -/
def acknowledged : Unit → Unit → Unit := fun _ _ => ()

end QuorumStore.Merge
