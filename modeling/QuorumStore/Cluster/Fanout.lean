import QuorumStore.Cluster.World
import QuorumStore.Quorum.Request

/-!
# Quorum requests in time

The calls of a request start in the order of their numbers and run side by side. All calls that
are due at one time run to their end before the request looks at any of their answers.

* `Cluster.begin`, `Cluster.finish`: a call arrives at its replica, and ends its wait.
* `QuorumRequest.proceed`: takes the answers at hand and waits for more as long as it has to.
* `QuorumRequest.run`: a whole request.
-/

namespace QuorumStore

open Std

/-- A call that waits before it fails or reaches its store. -/
structure WaitingCall (τ : Type) where
  /-- When its wait ends. -/
  due : Nat
  /-- Its number. -/
  ticket : Nat
  /-- The replica called. -/
  replica : ReplicaId
  /-- What is asked of it. -/
  verb : Verb τ
  /-- The failure it is bound to. -/
  fate : Option Failure

/-- The calls of a write that go on by themselves; those of a read do not. -/
def Mode.late {τ : Type} : Mode τ → List (WaitingCall τ) → List LateCall
  | .read, _ => []
  | .write, calls =>
    calls.map fun c =>
      { due := c.due, phase := .waiting c.fate, replica := c.replica, verb := c.verb }

/-- The calls of a write that go on by themselves although they have not begun. -/
def Mode.queued {τ : Type} (now : Nat) : Mode τ → List (ReplicaId × Verb τ) → List LateCall
  | .read, _ => []
  | .write, calls =>
    calls.map fun (replica, verb) => { due := now, phase := .queued, replica, verb }

namespace Cluster

variable {τ : Type}

/-- A call whose wait is over. -/
def finish (c : Cluster) (call : WaitingCall τ) : Completion τ × Cluster :=
  match call.fate with
  | some e => ({ ticket := call.ticket, replica := call.replica, result := .error e }, c)
  | none =>
    let (result, c) := c.call call.replica call.verb
    ({ ticket := call.ticket, replica := call.replica, result }, c)

/-- Finishes calls in turn. -/
def finishAll (c : Cluster) : List (WaitingCall τ) → List (Completion τ) × Cluster
  | [] => ([], c)
  | call :: rest =>
    let (done, c) := c.finish call
    let (others, c) := c.finishAll rest
    (done :: others, c)

/-- Puts a call before those that are due no earlier. -/
def insertWaiting (call : WaitingCall τ) : List (WaitingCall τ) → List (WaitingCall τ)
  | [] => [call]
  | first :: rest =>
    if first.due < call.due then first :: insertWaiting call rest else call :: first :: rest

/-- A call arrives at its replica. If it need not wait it also ends. -/
def begin (c : Cluster) (ticket : Nat) (replica : ReplicaId) (verb : Verb τ) :
    List (Completion τ) × List (WaitingCall τ) × Cluster :=
  match c.admission replica with
  | .refused e => ([{ ticket, replica, result := .error e }], [], c)
  | .delayed wait fate =>
    let call := { due := c.now + wait, ticket, replica, verb, fate }
    if wait = 0 then
      let (done, c) := c.finish call
      ([done], [], c)
    else ([], [call], c)

/-- Calls arrive in turn. The waiting ones come out in the order in which they are due. -/
def beginAll (c : Cluster) : List (Nat × ReplicaId × Verb τ) →
    List (Completion τ) × List (WaitingCall τ) × Cluster
  | [] => ([], [], c)
  | (ticket, replica, verb) :: rest =>
    let (done, waiting, c) := c.begin ticket replica verb
    let (others, later, c) := c.beginAll rest
    (done ++ others, waiting.foldr insertWaiting later, c)

end Cluster

namespace Run

/-- Waits until calls due at `t` have their turn, after the calls due then that go on by
themselves. At its deadline a step is abandoned before the calls due then, and `left` go on. -/
def awaitCalls (t : Nat) (left : List LateCall) : Run Unit := do
  let c ← get
  match c.deadline with
  | some deadline =>
    if deadline ≤ t then do
      set { c with late := left.foldl (fun late call => Cluster.enqueue call late) c.late }
      abandonAt deadline
    else set { c.runLate (t + 1) with now := max c.now t }
  | none => set { c.runLate (t + 1) with now := max c.now t }

end Run

namespace QuorumRequest

variable {κ υ τ α : Type} [Ord υ] [TransOrd υ]

/-- The calls of a request. -/
def calls (r : QuorumRequest κ υ τ α) : List (Nat × ReplicaId × Verb τ) :=
  r.plan.zipIdx.map fun ((replica, keys), ticket) => (ticket, replica, r.call keys)

/-- Ends a request that has come to `progress` while some calls still wait. -/
def conclude (r : QuorumRequest κ υ τ α) (g : Gathering υ α) (progress : Progress)
    (waiting : List (WaitingCall τ)) : Run (Except Failure α) := do
  let left := match progress with
    | .answered => r.mode.late waiting
    | _ => []
  modify fun c =>
    { c with
      telemetry := r.observeEnd c.telemetry g progress
      late := left.foldl (fun late call => Cluster.enqueue call late) c.late }
  return r.outcome g progress

/-- Takes the answers at hand, and as long as there is no verdict waits for the next calls. -/
def proceed (r : QuorumRequest κ υ τ α) (g : Gathering υ α) (waiting : List (WaitingCall τ))
    (done : List (Completion τ)) : Run (Except Failure α) := do
  let (g, remarks, progress) := r.drain g done
  modify fun c => { c with telemetry := r.observe c.telemetry remarks }
  match progress, waiting with
  | .undecided, first :: rest => do
    Run.awaitCalls first.due (r.mode.late waiting)
    let c ← get
    let (done, c) := c.finishAll (first :: rest.takeWhile (·.due = first.due))
    set c
    proceed r g (rest.dropWhile (·.due = first.due)) done
  | progress, waiting => conclude r g progress waiting
termination_by waiting.length
decreasing_by
  have := (List.dropWhile_sublist (fun w : WaitingCall τ => decide (w.due = first.due)) (l := rest)).length_le
  simp only [List.length_cons]
  omega

/-- A whole request. -/
def run (r : QuorumRequest κ υ τ α) : Run (Except Failure α) := do
  Run.count (·.startRequest r.operation)
  let g := r.start
  if g.tally.finished then conclude r g .answered []
  else if r.plan.isEmpty then conclude r g .undecided []
  else
    let now := (← get).now
    Run.awaitCalls now (r.mode.queued now (r.calls.map Prod.snd))
    let c ← get
    let (done, waiting, c) := c.beginAll r.calls
    set c
    proceed r g waiting done

end QuorumRequest

end QuorumStore
