import QuorumStore.Cluster.Replica
import QuorumStore.Coordinator

/-!
# A cluster in virtual time

A cluster is a set of replicas with a coordinator in front. Only the waits of replica calls take
time. The clock moves when nothing else can run, straight to the next call that is due. Calls of
writes that were answered early, or given up by their caller, go on by themselves.

* `Cluster.call`: a verb that reaches a replica's store.
* `Cluster.runLate`: runs the calls that go on by themselves and are due before a time.
* `Cluster.advanceTo`: lets time pass.
* `Run`: computations on a cluster that may come to no answer, as when they are abandoned at a
  deadline.
* `Run.waitUntil`: waits, and runs what is due in the meantime.
-/

namespace QuorumStore

open Std

/-- How far a call that goes on by itself has come. -/
inductive LatePhase where
  /-- It has not arrived at its replica. -/
  | queued
  /-- It waits, and then fails or reaches the store. -/
  | waiting (fate : Option Failure)
  deriving DecidableEq

/-- A write call that nobody waits for. -/
structure LateCall where
  /-- When it goes on. -/
  due : Nat
  /-- How far it has come. -/
  phase : LatePhase
  /-- The replica called. -/
  replica : ReplicaId
  /-- What is asked of it. -/
  verb : Verb Unit

/-- How many more times a call has its turn: a queued one arrives first. -/
def LateCall.turns (call : LateCall) : Nat :=
  match call.phase with
  | .queued => 2
  | .waiting _ => 1

/-- How many more turns calls have together. -/
def LateCall.allTurns : List LateCall → Nat
  | [] => 0
  | call :: calls => call.turns + allTurns calls

theorem LateCall.allTurns_lt_cons (call : LateCall) (calls : List LateCall) :
    allTurns calls < allTurns (call :: calls) := by
  have hpos : 0 < call.turns := by
    unfold turns
    split
    · exact Nat.succ_pos 1
    · exact Nat.succ_pos 0
  exact Nat.lt_add_of_pos_left hpos

/-- Replicas, their coordinator and the state of what is going on. -/
structure Cluster where
  /-- Milliseconds since the start. -/
  now : Nat := 0
  /-- When the step being run is abandoned. -/
  deadline : Option Nat := none
  /-- The replicas. -/
  replicas : ExtTreeMap ReplicaId Replica
  /-- The calls that go on by themselves, in the order in which they are due. -/
  late : List LateCall := []
  /-- The counters and the log. -/
  telemetry : Telemetry := {}
  /-- The coordinator, if there is one. -/
  coordinator : Option Coordinator := none

namespace Cluster

/-- Changes a replica. -/
def updateReplica (c : Cluster) (id : ReplicaId) (f : Replica → Replica) : Cluster :=
  { c with replicas := c.replicas.modify id f }

/-- Answers a verb from a replica's store. -/
def call {α : Type} (c : Cluster) (id : ReplicaId) (v : Verb α) : Except Failure α × Cluster :=
  match c.replicas[id]? with
  | none => (.error (.noReplicas v.operation), c)
  | some r =>
    let (result, r') := r.perform v
    (result,
      { c with
        replicas := c.replicas.insert id r'
        telemetry := c.telemetry.note (v.notices r.store) })

/-- What becomes of a call that arrives at a replica now. -/
def admission (c : Cluster) (id : ReplicaId) : Admission :=
  match c.replicas[id]? with
  | none => .refused (.noReplicas id)
  | some r => r.admission

/-- Puts a call behind those that are due no later. -/
def enqueue (call : LateCall) : List LateCall → List LateCall
  | [] => [call]
  | first :: rest =>
    if first.due ≤ call.due then first :: enqueue call rest else call :: first :: rest

theorem allTurns_enqueue (call : LateCall) (calls : List LateCall) :
    LateCall.allTurns (enqueue call calls) = call.turns + LateCall.allTurns calls := by
  induction calls with
  | nil => rfl
  | cons first rest ih =>
    unfold enqueue
    split
    · unfold LateCall.allTurns
      rw [ih]
      omega
    · rfl

/-- A call that has arrived has one turn less. -/
theorem allTurns_arrive_lt {first : LateCall} (h : first.phase = .queued) (due : Nat)
    (fate : Option Failure) (rest : List LateCall) :
    LateCall.allTurns (enqueue { first with due, phase := .waiting fate } rest) <
      LateCall.allTurns (first :: rest) := by
  have hturns : first.turns = 2 := by
    unfold LateCall.turns
    rw [h]
  rw [allTurns_enqueue, LateCall.allTurns, hturns]
  exact Nat.add_lt_add_right (Nat.lt_succ_self 1) _

/-- The call reaches the store, unless it is bound to fail. -/
def finishLate (c : Cluster) (call : LateCall) (fate : Option Failure) : Cluster :=
  match fate with
  | some _ => c
  | none => (c.call call.replica call.verb).2

/-- Runs the listed calls that are due before `bound`, and keeps the others. -/
def runLateCalls (bound : Nat) (c : Cluster) (calls : List LateCall) : Cluster :=
  match calls with
  | [] => { c with late := [] }
  | first :: rest =>
    if bound ≤ first.due then { c with late := first :: rest }
    else match _ : first.phase with
      | .waiting fate => runLateCalls bound (c.finishLate first fate) rest
      | .queued =>
        match c.admission first.replica with
        | .refused _ => runLateCalls bound c rest
        | .delayed 0 fate => runLateCalls bound (c.finishLate first fate) rest
        | .delayed wait fate =>
          runLateCalls bound c
            (enqueue { first with due := first.due + wait, phase := .waiting fate } rest)
termination_by LateCall.allTurns calls
decreasing_by
  · exact LateCall.allTurns_lt_cons first rest
  · exact LateCall.allTurns_lt_cons first rest
  · exact LateCall.allTurns_lt_cons first rest
  · exact allTurns_arrive_lt ‹_› _ fate rest

/-- The turn of a call that is due. -/
theorem runLateCalls_cons {bound : Nat} {first : LateCall} (hdue : ¬ bound ≤ first.due)
    (c : Cluster) (rest : List LateCall) : c.runLateCalls bound (first :: rest) =
      match first.phase with
      | .waiting fate => (c.finishLate first fate).runLateCalls bound rest
      | .queued =>
        match c.admission first.replica with
        | .refused _ => c.runLateCalls bound rest
        | .delayed 0 fate => (c.finishLate first fate).runLateCalls bound rest
        | .delayed wait fate => c.runLateCalls bound
            (enqueue { first with due := first.due + wait, phase := .waiting fate } rest) := by
  rw [runLateCalls, if_neg hdue]
  split
  · rename_i hphase
    rw [hphase]
  · rename_i hphase
    rw [hphase]

/-- Runs the calls that go on by themselves and are due before `bound`. -/
def runLate (c : Cluster) (bound : Nat) : Cluster := runLateCalls bound c c.late

/-- Lets time pass until `t`, where calls due at `t` itself are left for the next occasion. -/
def advanceTo (c : Cluster) (t : Nat) : Cluster :=
  let c := c.runLate t
  { c with now := max c.now t }

end Cluster

/-- Why a step comes to no answer. -/
inductive Halt where
  /-- It was abandoned at its deadline. -/
  | abandoned
  /-- It has asked for a page for which there is no room. -/
  | noRoom

/-- A computation on a cluster. -/
abbrev Run := ExceptT Halt (StateM Cluster)

namespace Run

/-- Gives up the step at its deadline. -/
def abandonAt {α : Type} (deadline : Nat) : Run α := do
  modify (·.advanceTo deadline)
  throw .abandoned

/-- Waits until `t`, unless the step's deadline comes before. -/
def waitUntil (t : Nat) : Run Unit := do
  let c ← get
  if t ≤ c.now then return
  match c.deadline with
  | some deadline => if deadline < t then abandonAt deadline else set (c.advanceTo t)
  | none => set (c.advanceTo t)

/-- Changes the counters. -/
def count (f : Metrics → Metrics) : Run Unit :=
  modify fun c => { c with telemetry := c.telemetry.count f }

/-- Writes to the log. -/
def note (event : LogEvent) : Run Unit :=
  modify fun c => { c with telemetry := c.telemetry.note [event] }

end Run

end QuorumStore
