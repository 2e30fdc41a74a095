import QuorumStore.Placement

/-!
# Placement on a hash ring

Tokens are byte strings on a ring in key order, each owned by an endpoint. A row belongs to the
greatest token at or below it, and to the last token of all if it comes before the first. Its
replicas are the first distinct endpoints met on the walk clockwise from there.

A ring can be set up with any factor but zero. Its lists of replicas are given room for as many
entries as the factor says, whatever the number of endpoints, and no more than `maxReplicas` have
room; beyond that a ring that is asked for replicas stops the process.

* `RingLayout`: a ring as it is set up.
* `RingLayout.of?`, `RingLayout.evenlySpaced?`: rings from tokens, and from endpoints alone.
* `RingLayout.ownerToken`, `RingLayout.cuts`: the token of a row, and the parts of a range between
  tokens.
* `RingLayout.replicasOf?`, `RingLayout.planRange?`: the replicas of a row and the slices of a range,
  if there is room for them.
* `Ring`: a ring that has room for its replicas, with `Ring.replicasOf` and `Ring.planRange`.
* `Ring.placement`: such a ring as a placement.
-/

namespace QuorumStore

open Std

/-- A hash ring as it is set up. -/
structure RingLayout where
  /-- The version of the assignment. -/
  version : UInt64
  /-- How many distinct endpoints hold a row. -/
  replication : Nat
  /-- The endpoint of every token. -/
  tokens : ExtTreeMap Bytes ReplicaId

/-- The most replicas that a list can have room for. An entry is an identifier of 24 bytes and a
reference of 16 bytes to a service. -/
def maxReplicas : Nat := roomFor 40

example : maxReplicas = 230584300921369395 := by decide

theorem one_le_maxReplicas : 1 ≤ maxReplicas := by decide

theorem two_le_maxReplicas : 2 ≤ maxReplicas := by decide

theorem three_le_maxReplicas : 3 ≤ maxReplicas := by decide

/-- A hash ring that has room for the replicas of a row. -/
structure Ring extends RingLayout where
  replication_le : replication ≤ maxReplicas

/-- The first `n` distinct members of a list, after those already found. -/
def firstDistinct (n : Nat) : List ReplicaId → List ReplicaId → List ReplicaId
  | found, [] => found
  | found, r :: rest =>
    if found.length = n then found
    else if r ∈ found then firstDistinct n found rest
    else firstDistinct n (found ++ [r]) rest

namespace RingLayout

/-- The ring with the given tokens; of two entries for one token the later holds. -/
def of? (version : UInt64) (replication : Nat) (tokens : List (Bytes × ReplicaId)) :
    Except Failure RingLayout :=
  if replication = 0 then .error (.invalidQuorum "replication factor must be > 0")
  else .ok { version, replication, tokens := ExtTreeMap.ofList tokens compare }

/-- How many single-byte tokens there are. -/
def maxEvenlySpaced : Nat := 256

/-- The ring with the given endpoints at evenly spaced single-byte tokens, in order. -/
def evenlySpaced? (version : UInt64) (replication : Nat) (replicas : List ReplicaId) :
    Except Failure RingLayout :=
  let n := replicas.length
  if maxEvenlySpaced < n then
    .error (.invalidConfig
      (toString n ++ " replicas exceed the " ++ toString maxEvenlySpaced ++ " single-byte tokens"))
  else
    of? version replication
      (replicas.zipIdx.map fun (r, i) => ([UInt8.ofNat (i * maxEvenlySpaced / n)], r))

/-- The tokens in order. -/
def tokenList (r : RingLayout) : List Bytes := r.tokens.keys

/-- The token that owns a row, unless the ring is empty. -/
def ownerToken (r : RingLayout) (row : Bytes) : Option Bytes :=
  (r.tokenList.takeWhile (· ≤ row)).getLast?.or r.tokenList.getLast?

/-- The endpoints clockwise from a token, with repetitions. -/
def clockwise (r : RingLayout) (token : Bytes) : List ReplicaId :=
  let entries := r.tokens.toList
  (entries.dropWhile (·.1 < token) ++ entries.takeWhile (·.1 < token)).map Prod.snd

/-- The replicas of the rows of a token. Room for all of them is reserved before any is looked for. -/
def replicasFrom? (r : RingLayout) (token : Bytes) : Option (List ReplicaId) :=
  if r.replication ≤ maxReplicas then some (firstDistinct r.replication [] (r.clockwise token))
  else none

/-- The replicas of a row. -/
def replicasOf? (r : RingLayout) (row : Bytes) : Option (List ReplicaId) :=
  match r.ownerToken row with
  | none => some []
  | some token => r.replicasFrom? token

/-- The parts of a range that start at the given tokens, with their tokens. -/
def cutsFrom (range : RowRange) : List Bytes → List (RowRange × Bytes)
  | [] => []
  | token :: rest =>
    ((range.clamp token (rest.head?.getD [])).map (·, token)).toList ++ cutsFrom range rest

/-- The part of a range before the first token, which belongs to the last one. -/
def wrapped (range : RowRange) (first last : Bytes) : List (RowRange × Bytes) :=
  if first.isEmpty then [] else ((range.clamp [] first).map (·, last)).toList

/-- The parts of a range between tokens, in key order, with the tokens that own them. -/
def cuts (r : RingLayout) (range : RowRange) : List (RowRange × Bytes) :=
  match r.tokenList.head?, r.tokenList.getLast? with
  | some first, some last => wrapped range first last ++ cutsFrom range r.tokenList
  | _, _ => []

/-- The slices of a range between tokens, in key order. -/
def planRange? (r : RingLayout) (range : RowRange) : Option (List SubRange) :=
  (r.cuts range).mapM fun (part, owner) => do
    return { range := part, owner, replicas := ← r.replicasFrom? owner }

/-- Every endpoint once, in the order of its first token. -/
def replicas (r : RingLayout) : List ReplicaId :=
  r.tokens.values.foldl (fun found x => if x ∈ found then found else found ++ [x]) []

/-- The ring, if it has room for the replicas of a row. -/
def ring? (r : RingLayout) : Option Ring :=
  if h : r.replication ≤ maxReplicas then some { r with replication_le := h } else none

end RingLayout

namespace Ring

/-- The replicas of the rows of a token. -/
def replicasFrom (r : Ring) (token : Bytes) : List ReplicaId :=
  firstDistinct r.replication [] (r.clockwise token)

/-- The replicas of a row. -/
def replicasOf (r : Ring) (row : Bytes) : List ReplicaId :=
  match r.ownerToken row with
  | none => []
  | some token => r.replicasFrom token

/-- The slices of a range between tokens, in key order. -/
def planRange (r : Ring) (range : RowRange) : List SubRange :=
  (r.cuts range).map fun (part, owner) =>
    { range := part, owner, replicas := r.replicasFrom owner }

/-- The ring as a placement. -/
def placement (r : Ring) : Placement where
  version := r.version
  replicasOf := r.replicasOf
  planRange := r.planRange
  replicas := r.replicas

end Ring

end QuorumStore
