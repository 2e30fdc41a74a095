import QuorumStore.Placement
import QuorumStore.Telemetry

/-!
# The current placement

Each request takes one snapshot of the placement and routes all its calls by it. A placement is
only ever replaced by a newer one.

* `Placement.replaceBy`: the newer of two placements, or the reason why it stays.
* `PlacementHistory`: the current placement with named snapshots of those before it.
-/

namespace QuorumStore

open Std

namespace Placement

/-- Installs `new` in place of `current` if it is strictly newer. -/
def replaceBy (current new : Placement) : Except Failure Placement :=
  if new.version ≤ current.version then
    .error (.mapTooOld new.version.toNat current.version.toNat)
  else .ok new

/-- What is logged when a placement is replaced. -/
def installNotice (current new : Placement) : LogEvent where
  level := .info
  message := "installed new partition map"
  fields := [("from", .number current.version.toNat), ("to", .number new.version.toNat)]

end Placement

/-- The current placement with named snapshots of those before it. -/
structure PlacementHistory where
  /-- The current placement. -/
  current : Placement
  /-- The snapshots by name. -/
  snapshots : ExtTreeMap String Placement := ∅
  /-- The log since it was last looked at. -/
  log : List LogEvent := []

namespace PlacementHistory

/-- Keeps the current placement under a name. -/
def snapshot (h : PlacementHistory) (name : String) : PlacementHistory :=
  { h with snapshots := h.snapshots.insert name h.current }

/-- Moves on to a newer placement. -/
def install (h : PlacementHistory) (new : Placement) : Except Failure Unit × PlacementHistory :=
  match h.current.replaceBy new with
  | .error e => (.error e, h)
  | .ok current => (.ok (), { h with current, log := h.log ++ [h.current.installNotice new] })

end PlacementHistory

end QuorumStore
