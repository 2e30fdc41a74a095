import Std.Data.ExtTreeMap

/-!
# What can be observed of a coordinator from outside

* `LogEvent`: a level, a message and named fields.
* `Metrics`: what is counted, and for which operation.
* `Metrics.startRequest`: a request with a measured latency.
* `Metrics.addCancelled`: calls that were given up.
* `Telemetry`: counters and log together.
-/

namespace QuorumStore

open Std

/-- How serious a log event is. -/
inductive LogLevel where
  /-- A rule of use was broken. -/
  | error
  /-- A part failed. -/
  | warn
  /-- A change of state worth noting. -/
  | info
  /-- Details. -/
  | debug
  deriving DecidableEq

/-- The word for a level. -/
def LogLevel.name : LogLevel → String
  | error => "ERROR"
  | warn => "WARN"
  | info => "INFO"
  | debug => "DEBUG"

/-- What a field of a log event holds. -/
inductive LogValue where
  /-- A text. -/
  | text (s : String)
  /-- A number. -/
  | number (n : Nat)
  deriving DecidableEq

/-- One log event. -/
structure LogEvent where
  /-- How serious it is. -/
  level : LogLevel
  /-- What happened. -/
  message : String
  /-- The named details. -/
  fields : List (String × LogValue) := []
  deriving DecidableEq

/-- One counter for each operation. -/
abbrev CounterByOperation := ExtTreeMap String UInt64

/-- One more for an operation. -/
def CounterByOperation.increment (c : CounterByOperation) (operation : String) :
    CounterByOperation :=
  c.insert operation (c.getD operation 0 + 1)

/-- What a coordinator counts. -/
structure Metrics where
  /-- Requests. -/
  requests : CounterByOperation := ∅
  /-- Requests whose latency was measured. -/
  latencies : CounterByOperation := ∅
  /-- Failed replica calls that did not decide their request. -/
  absorbed : CounterByOperation := ∅
  /-- Requests that failed because their quorum was out of reach. -/
  quorumFailures : CounterByOperation := ∅
  /-- Replica calls given up after a verdict. -/
  cancelled : UInt64 := 0
  /-- Replica cursors dropped from a sub-range. -/
  droppedCursors : UInt64 := 0
  deriving DecidableEq

namespace Metrics

/-- A request without a measured latency. -/
def countRequest (m : Metrics) (operation : String) : Metrics :=
  { m with requests := m.requests.increment operation }

/-- A request, its latency measured from now on. -/
def startRequest (m : Metrics) (operation : String) : Metrics :=
  { m.countRequest operation with latencies := m.latencies.increment operation }

/-- A failed call that did not decide its request. -/
def countAbsorbed (m : Metrics) (operation : String) : Metrics :=
  { m with absorbed := m.absorbed.increment operation }

/-- A request that failed because its quorum was out of reach. -/
def countQuorumFailure (m : Metrics) (operation : String) : Metrics :=
  { m with quorumFailures := m.quorumFailures.increment operation }

/-- Calls that were given up. -/
def addCancelled (m : Metrics) (calls : UInt64) : Metrics :=
  { m with cancelled := m.cancelled + calls }

/-- A replica cursor that was dropped. -/
def countDroppedCursor (m : Metrics) : Metrics :=
  { m with droppedCursors := m.droppedCursors + 1 }

end Metrics

/-- Counters and log. -/
structure Telemetry where
  /-- The counters. -/
  metrics : Metrics := {}
  /-- The log, oldest event first. -/
  log : List LogEvent := []
  deriving DecidableEq

namespace Telemetry

/-- Changes the counters. -/
def count (t : Telemetry) (f : Metrics → Metrics) : Telemetry :=
  { t with metrics := f t.metrics }

/-- Appends to the log. -/
def note (t : Telemetry) (events : List LogEvent) : Telemetry :=
  { t with log := t.log ++ events }

end Telemetry

end QuorumStore
