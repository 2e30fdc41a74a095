import QuorumStore.RowRange
import QuorumStore.Scan.Merged

/-!
# Placement of rows on replicas

* `Placement`: which replicas hold a row, how a range is split among them, and who they all are.
* `groupByReplica`: the keys that each replica is to be asked for.
-/

namespace QuorumStore

open Std

/-- A snapshot of the assignment of rows to replicas. -/
structure Placement where
  /-- Its version; a newer snapshot has a greater one. -/
  version : UInt64
  /-- The replicas of a row, in order of preference. -/
  replicasOf : Bytes → List ReplicaId
  /-- The disjoint slices of a range, with the replicas that cover them. -/
  planRange : RowRange → List SubRange
  /-- Every known replica. -/
  replicas : List ReplicaId

section Group

variable {κ : Type}

/-- Adds a key to the group of a replica. -/
def addToGroup (groups : ExtTreeMap ReplicaId (List κ)) (replica : ReplicaId) (key : κ) :
    ExtTreeMap ReplicaId (List κ) :=
  groups.insert replica (groups.getD replica [] ++ [key])

/-- Assigns each key to every replica of its row. The groups are in the order of replica ids, the
keys of a group in the order of the list. -/
def groupByReplica (row : κ → Bytes) (route : Bytes → List ReplicaId) (keys : List κ) :
    List (ReplicaId × List κ) :=
  (keys.foldl
    (fun groups key => (route (row key)).foldl (fun gs r => addToGroup gs r key) groups)
    (∅ : ExtTreeMap ReplicaId (List κ))).toList

/-- The groups of keys under a placement. -/
def Placement.group (p : Placement) (row : κ → Bytes) (keys : List κ) :
    List (ReplicaId × List κ) :=
  groupByReplica row p.replicasOf keys

end Group

end QuorumStore
