import QuorumStore.Cell

/-!
# Failures

Everything a request can fail with, as causes; the wording of each is in one function.

* `Failure.message`: the text of a failure.
* `Failure.isQuorum`: whether a whole request failed, and not one replica's call.
* `Failure.causes`: the failures that a failure wraps, outermost first.
-/

namespace QuorumStore

/-- The name of a table. -/
abbrev TableName := String

/-- The identity of a replica. Groups of replicas are ordered by it. -/
abbrev ReplicaId := String

/-- Why a request, or one replica's call, did not succeed. -/
inductive Failure where
  /-- The call to a replica failed. -/
  | replicaCall (text : String)
  /-- The call was not answered in time. -/
  | timeout
  /-- The table does not exist. -/
  | tableNotFound (table : TableName)
  /-- A conditional write met a cell that has a version. -/
  | keyExists (cell : Cell)
  /-- A value is longer than its table allows. -/
  | valueTooLarge (size limit : Nat)
  /-- The caller routed with an older partition map than the current one. -/
  | mapTooOld (used current : Nat)
  /-- The task that ran a replica's call broke down. -/
  | taskFailed
  /-- The quorum sizes do not fit each other. -/
  | invalidQuorum (text : String)
  /-- The configuration is refused. -/
  | invalidConfig (text : String)
  /-- There is no replica to ask. -/
  | noReplicas (operation : String)
  /-- Every replica call finished and some unit still lacks a verdict. -/
  | tooFewReplicas (operation : String) (needed got : Nat)
  /-- Some unit can no longer reach its quorum; `cause` is the failure that decided it. -/
  | quorumUnreachable (operation : String) (table : TableName) (cause : Failure)
  deriving DecidableEq

namespace Failure

/-- The text of a failure. -/
def message : Failure → String
  | replicaCall text => "replica call failed: " ++ text
  | timeout => "timeout"
  | tableNotFound table => "table not found: " ++ table
  | keyExists cell => "key already exists: " ++ cell.display
  | valueTooLarge size limit =>
    "value of " ++ toString size ++ " bytes exceeds table limit of " ++ toString limit ++ " bytes"
  | mapTooOld used current =>
    "partition map version " ++ toString used ++ " is older than replica's " ++ toString current
  | taskFailed => "replica task failed"
  | invalidQuorum text => "invalid quorum parameters: " ++ text
  | invalidConfig text => "invalid configuration: " ++ text
  | noReplicas operation => "no replicas available for " ++ operation
  | tooFewReplicas operation needed got =>
    operation ++ ": not enough replicas: need " ++ toString needed ++ ", got " ++ toString got
  | quorumUnreachable operation table _ =>
    operation ++ " on table " ++ table ++ ": quorum unreachable"

/-- Whether the failure is that of a whole request. -/
def isQuorum : Failure → Bool
  | tooFewReplicas .. | quorumUnreachable .. => true
  | _ => false

/-- The failures wrapped by a failure, outermost first. -/
def causes : Failure → List Failure
  | quorumUnreachable _ _ cause => cause :: cause.causes
  | _ => []

end Failure

end QuorumStore
