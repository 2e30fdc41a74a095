import QuorumStore.Quorum.Tally
import QuorumStore.Telemetry
import QuorumStore.Verb

/-!
# Requests to a quorum of replicas

A request is split into one call for each replica that holds some of its keys. The answers are
taken one at a time, in the order in which the calls finish, until every unit has a verdict: good
answers are merged, a failure is absorbed unless it puts some unit's quorum out of reach.

* `QuorumRequest`: a request with its calls, numbered in the order of their replicas.
* `QuorumRequest.start`: the state before any answer.
* `QuorumRequest.take`, `QuorumRequest.drain`: the effect of one answer, and of several.
* `QuorumRequest.outcome`: what the request comes to.
* `QuorumRequest.observe`: what of it shows in counters and log.
-/

namespace QuorumStore

open Std Quorum

/-- What becomes of the calls still on their way when a request is answered. -/
inductive Mode : Type → Type 1 where
  /-- A read: they are given up, also if the reader leaves early. -/
  | read {τ : Type} : Mode τ
  /-- A write: they go on. -/
  | write : Mode Unit

/-- A request over units `υ` with keys `κ`, whose calls answer with `τ` and which answers with
`α`. -/
structure QuorumRequest (κ υ τ α : Type) where
  /-- Its name. -/
  operation : String
  /-- The table it is about. -/
  table : TableName
  /-- What becomes of unfinished calls. -/
  mode : Mode τ
  /-- When a unit is decided. -/
  policy : Policy
  /-- The units. -/
  units : List υ
  /-- The keys that each replica is asked for, in the order of replica ids. -/
  plan : List (ReplicaId × List κ)
  /-- The unit that a key belongs to. -/
  unitOf : κ → υ
  /-- What a replica is asked for its keys. -/
  call : List κ → Verb τ
  /-- The answer before any call has finished. -/
  empty : α
  /-- Adds a call's answer. -/
  merge : α → τ → α

/-- A call that has finished. -/
structure Completion (τ : Type) where
  /-- The number of the call. -/
  ticket : Nat
  /-- The replica called. -/
  replica : ReplicaId
  /-- Its answer. -/
  result : Except Failure τ

/-- What is noted of a failed call. -/
inductive Remark where
  /-- The quorum stays within reach. -/
  | absorbed (replica : ReplicaId) (failure : Failure)
  /-- The quorum of some unit is out of reach. -/
  | decisive (replica : ReplicaId) (failure : Failure)
  deriving DecidableEq

/-- How far a request has come. -/
inductive Progress where
  /-- Some unit has no verdict. -/
  | undecided
  /-- Every unit has reached its quorum. -/
  | answered
  /-- Some unit can no longer reach its quorum. -/
  | unreachable (cause : Failure)
  deriving DecidableEq

/-- The state of a request that is being answered. -/
structure Gathering (υ α : Type) [Ord υ] where
  /-- The answers of every unit. -/
  tally : Tally Nat υ
  /-- The answers merged so far. -/
  answer : α
  /-- Calls that succeeded so far. -/
  successes : Nat

namespace QuorumRequest

variable {κ υ τ α : Type} [Ord υ] [TransOrd υ]

/-- The state before any answer: every call is on its way. -/
def start (r : QuorumRequest κ υ τ α) : Gathering υ α where
  tally := r.plan.zipIdx.foldl
    (fun t ((_, keys), ticket) => t.register ticket (keys.map r.unitOf))
    (Tally.ofUnits r.units r.policy)
  answer := r.empty
  successes := 0

/-- The effect of one finished call. -/
def take (r : QuorumRequest κ υ τ α) (g : Gathering υ α) (c : Completion τ) :
    Gathering υ α × Option Remark :=
  if !g.tally.isOutstanding c.ticket then (g, none)
  else match c.result with
    | .ok part =>
      ({ tally := g.tally.resolve c.ticket true
         answer := r.merge g.answer part
         successes := g.successes + 1 }, none)
    | .error e =>
      let tally := g.tally.resolve c.ticket false
      ({ g with tally },
        some (if tally.failed then .decisive c.replica e else .absorbed c.replica e))

/-- Takes finished calls in turn until every unit has a verdict. -/
def drain (r : QuorumRequest κ υ τ α) :
    Gathering υ α → List (Completion τ) → Gathering υ α × List Remark × Progress
  | g, [] => (g, [], if g.tally.finished then .answered else .undecided)
  | g, c :: cs =>
    if g.tally.finished then (g, [], .answered)
    else match r.take g c with
      | (g, some (.decisive replica e)) => (g, [.decisive replica e], .unreachable e)
      | (g, remark) =>
        let (g, remarks, progress) := drain r g cs
        (g, remark.toList ++ remarks, progress)

/-- What a request comes to: its answer, the failure that put its quorum out of reach, or, with no
call left and no verdict, the lack of replicas. -/
def outcome (r : QuorumRequest κ υ τ α) (g : Gathering υ α) : Progress → Except Failure α
  | .answered => .ok g.answer
  | .unreachable cause => .error (.quorumUnreachable r.operation r.table cause)
  | .undecided => .error (.tooFewReplicas r.operation r.policy.success g.successes)

/-- The numbers of the calls that are given up when a request has come to its end. -/
def givenUp (r : QuorumRequest κ υ τ α) (g : Gathering υ α) (progress : Progress) : List Nat :=
  match progress, r.mode with
  | .unreachable _, _ => (g.tally.cancel true).1
  | .answered, .read => (g.tally.cancel true).1
  | .answered, .write => (g.tally.cancel false).1
  | .undecided, _ => []

/-- The log event for a failed call. -/
def logEvent (r : QuorumRequest κ υ τ α) : Remark → LogEvent
  | .absorbed replica e => event replica e "absorbed replica failure"
  | .decisive replica e => event replica e "quorum unreachable"
where
  /-- A warning about a replica's failure. -/
  event (replica : ReplicaId) (e : Failure) (message : String) : LogEvent :=
    { level := .warn, message
      fields :=
        [("operation", .text r.operation), ("table", .text r.table), ("replica", .text replica),
          ("error", .text e.message)] }

/-- The counters after a failed call. -/
def countRemark (r : QuorumRequest κ υ τ α) (m : Metrics) : Remark → Metrics
  | .absorbed .. => m.countAbsorbed r.operation
  | .decisive .. => m.countQuorumFailure r.operation

/-- The telemetry after failed calls. -/
def observe (r : QuorumRequest κ υ τ α) (t : Telemetry) (remarks : List Remark) : Telemetry :=
  (t.note (remarks.map r.logEvent)).count fun m => remarks.foldl r.countRemark m

/-- The telemetry after the end of a request. -/
def observeEnd (r : QuorumRequest κ υ τ α) (t : Telemetry) (g : Gathering υ α)
    (progress : Progress) : Telemetry :=
  match progress with
  | .undecided => t.count (·.countQuorumFailure r.operation)
  | _ => t.count (·.addCancelled (UInt64.ofNat (r.givenUp g progress).length))

/-- A whole request, with its calls finishing in the given order: the answer and the telemetry. -/
def execute (r : QuorumRequest κ υ τ α) (t : Telemetry) (completions : List (Completion τ)) :
    Except Failure α × Telemetry :=
  let t := t.count (·.startRequest r.operation)
  let (g, remarks, progress) := r.drain r.start completions
  (r.outcome g progress, r.observeEnd (r.observe t remarks) g progress)

end QuorumRequest

end QuorumStore
