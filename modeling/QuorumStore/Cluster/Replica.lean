import QuorumStore.Cursor
import QuorumStore.Store

/-!
# Replicas with injected faults

A replica is a store behind a layer that can be told to misbehave: to be down, to be slow, to fail
every call, and to let range cursors break down after a number of rows. In front of that layer a
failure can be injected that answers every call at once.

* `Replica.admission`: what becomes of a call when it arrives.
* `Replica.perform`, `Replica.openRange`: a call that reaches the store.
-/

namespace QuorumStore

/-- A fault that lasts until it is cleared. -/
inductive Outage where
  /-- Every call fails at once. -/
  | error
  /-- Every call waits out the latency and then times out. -/
  | timeout
  deriving DecidableEq

/-- How a replica is told to misbehave. -/
structure Faults where
  /-- A lasting fault. -/
  outage : Option Outage := none
  /-- How long a call waits before it reaches the store, in milliseconds. -/
  latency : Nat := 0
  /-- Whether calls fail after the wait. -/
  failing : Bool := false
  /-- After how many reads range cursors break down. -/
  cursorLimit : Option Nat := none
  deriving DecidableEq

/-- What becomes of a call when it arrives. -/
inductive Admission where
  /-- It is refused at once. -/
  | refused (failure : Failure)
  /-- It waits, and then fails or reaches the store. -/
  | delayed (wait : Nat) (fate : Option Failure)
  deriving DecidableEq

/-- A replica. -/
structure Replica where
  /-- How it misbehaves. -/
  faults : Faults := {}
  /-- The failure that answers every call. -/
  injected : Option Failure := none
  /-- How many calls have reached the store. -/
  completed : Nat := 0
  /-- Its tables. -/
  store : Store := {}
  deriving DecidableEq

namespace Replica

/-- What becomes of a call that arrives now. -/
def admission (r : Replica) : Admission :=
  match r.injected, r.faults.outage with
  | some e, _ => .refused e
  | none, some .error => .refused (.replicaCall "chaos: replica marked as failed")
  | none, some .timeout => .delayed r.faults.latency (some .timeout)
  | none, none =>
    .delayed r.faults.latency
      (if r.faults.failing then some (.replicaCall "chaos: random failure") else none)

/-- Answers a verb from the store. The call counts as completed whatever the store answers. -/
def perform {α : Type} (r : Replica) (v : Verb α) : Except Failure α × Replica :=
  let (result, store) := Store.run v r.store
  (result, { r with store, completed := r.completed + 1 })

/-- The cursor over rows that were read, which breaks down as the faults have it. -/
def cursor {τ : Type} (r : Replica) (rows : List (Row τ)) : Feed (Row τ) where
  items := rows
  breaksAfter := r.faults.cursorLimit.map (·, .replicaCall "chaos: cursor failed mid-stream")

/-- Opens a range read on the store. -/
def openRange {τ : Type} (r : Replica) (projection : Projection τ) (table : TableName)
    (range : RowRange) (t : Timestamp) : Except Failure (Feed (Row τ)) × Replica :=
  ((r.store.scan table range t projection).map r.cursor, { r with completed := r.completed + 1 })

end Replica

end QuorumStore
