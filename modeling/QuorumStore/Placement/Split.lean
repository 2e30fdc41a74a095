import QuorumStore.Placement

/-!
# Placement split at one key

* `Split`: rows below a key on some replicas, all others on other replicas.
-/

namespace QuorumStore

/-- A placement with two slices. -/
structure Split where
  /-- The version of the assignment. -/
  version : UInt64
  /-- The first row of the upper slice. -/
  key : Bytes
  /-- The replicas of the lower slice. -/
  low : List ReplicaId
  /-- The replicas of the upper slice. -/
  high : List ReplicaId

namespace Split

/-- The replicas of a row. -/
def replicasOf (s : Split) (row : Bytes) : List ReplicaId := if row < s.key then s.low else s.high

/-- The parts of a range in the two slices. -/
def planRange (s : Split) (range : RowRange) : List SubRange :=
  let lower := (range.clamp [] s.key).map fun part =>
    { range := part, owner := [], replicas := s.low }
  let upper := (range.clamp s.key []).map fun part =>
    { range := part, owner := s.key, replicas := s.high }
  lower.toList ++ upper.toList

/-- The split as a placement. Replicas of both slices are listed twice. -/
def placement (s : Split) : Placement where
  version := s.version
  replicasOf := s.replicasOf
  planRange := s.planRange
  replicas := s.low ++ s.high

end Split

end QuorumStore
