import QuorumStore.Telemetry.Count
import QuorumStore.Telemetry

/-!
# The text exposition of the counters

Counters come in families sorted by name. A family has a help line, a type line and a line for
each counter, sorted by operation; a family by operation without counters is left out. Of the
latencies only the number of measurements is exposed.

* `Metrics.exposition`: the lines.
-/

namespace QuorumStore

open Std

namespace Exposition

/-- A label value, with backslashes, quotes and line ends escaped. -/
def escape (label : String) : String :=
  String.ofList (label.toList.flatMap fun c =>
    if c = '\\' then ['\\', '\\']
    else if c = '"' then ['\\', '"']
    else if c = '\n' then ['\\', 'n']
    else [c])

/-- The help line and the type line of a family. -/
def header (name help type : String) : List String :=
  ["# HELP " ++ name ++ " " ++ help, "# TYPE " ++ name ++ " " ++ type]

/-- The line of a counter. -/
def counter (name : String) (count : UInt64) : String := name ++ " " ++ Count.text count.toNat

/-- The line of the counter of an operation. -/
def labelled (name operation : String) (count : UInt64) : String :=
  counter (name ++ "\x7boperation=\"" ++ escape operation ++ "\"\x7d") count

/-- A family with a counter for each operation. -/
def family (name help type suffix : String) (counts : CounterByOperation) : List String :=
  if counts.isEmpty then []
  else
    header name help type
      ++ counts.toList.map fun (operation, count) => labelled (name ++ suffix) operation count

/-- A family with one counter. -/
def single (name help : String) (count : UInt64) : List String :=
  header name help "counter" ++ [counter name count]

end Exposition

open Exposition in
/-- The lines of the exposition. -/
def Metrics.exposition (m : Metrics) : List String :=
  family "ringkv_absorbed_replica_failures_total"
      "Replica failures tolerated by quorum, by operation" "counter" "" m.absorbed
    ++ single "ringkv_cancelled_tasks_total" "Outstanding replica tasks cancelled after a verdict"
      m.cancelled
    ++ family "ringkv_quorum_failures_total"
      "Requests failed because quorum became unreachable, by operation" "counter" ""
      m.quorumFailures
    ++ single "ringkv_range_subfetch_failures_total"
      "Replica range cursors dropped from a sub-range merge" m.droppedCursors
    ++ family "ringkv_request_latency_seconds" "Logical request latency in seconds" "histogram"
      "_count" m.latencies
    ++ family "ringkv_requests_total" "Logical requests, by operation" "counter" "" m.requests

/-- The counters in diagnostic texts. -/
def Metrics.debug (_ : Metrics) : String := "CoordinatorMetrics \x7b .. \x7d"

end QuorumStore
