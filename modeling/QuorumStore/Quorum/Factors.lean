import QuorumStore.Config
import QuorumStore.Failure

/-!
# Quorum sizes

* `Quorum.Factors`: the replication factor with a read and a write quorum that fit it.
* `Quorum.Policy`: how many answers decide one unit of a request.
* `Quorum.Policy.failure_add_success`: the two thresholds together exceed the replication factor
  by one, so a unit whose calls all finish has crossed one of them.
-/

namespace QuorumStore.Quorum

/-- When a unit of a request is decided: after `success` good answers of `replication`. -/
structure Policy where
  /-- Replicas of a row. -/
  replication : Nat
  /-- Good answers that a unit needs. -/
  success : Nat
  success_pos : 1 ≤ success := by omega
  success_le : success ≤ replication := by omega
  deriving DecidableEq

/-- Failures after which the good answers can no longer suffice. -/
def Policy.failure (p : Policy) : Nat := p.replication - p.success + 1

theorem Policy.failure_add_success (p : Policy) : p.failure + p.success = p.replication + 1 := by
  have := p.success_le
  unfold failure
  omega

/-- The replication factor with the sizes of the read and the write quorum. -/
structure Factors where
  /-- Replicas of a row. -/
  replication : Nat
  /-- Good answers that a unit of a read needs. -/
  read : Nat
  /-- Good answers that a unit of a write needs. -/
  write : Nat
  read_pos : 1 ≤ read := by omega
  read_le : read ≤ replication := by omega
  write_pos : 1 ≤ write := by omega
  write_le : write ≤ replication := by omega
  deriving DecidableEq

namespace Factors

/-- The text for a quorum size that does not fit the replication factor. -/
def outOfRange (name : String) (factor replication : Nat) : String :=
  name ++ " factor " ++ toString factor ++ " must be in 1..=" ++ toString replication

/-- The quorum sizes, if both fit the replication factor; the read quorum is looked at first. -/
def of? (replication read write : Nat) : Except Failure Factors :=
  if hr : 1 ≤ read ∧ read ≤ replication then
    if hw : 1 ≤ write ∧ write ≤ replication then .ok { replication, read, write }
    else .error (.invalidQuorum (outOfRange "write" write replication))
  else .error (.invalidQuorum (outOfRange "read" read replication))

/-- The quorum sizes of a configuration. -/
def ofConfig? (c : QuorumConfig) : Except Failure Factors :=
  of? c.replicationFactor.toNat c.readFactor.toNat c.writeFactor.toNat

/-- A unit of a read is decided by the read quorum. -/
def readPolicy (f : Factors) : Policy :=
  { replication := f.replication, success := f.read
    success_pos := f.read_pos, success_le := f.read_le }

/-- A unit of a write is decided by the write quorum. -/
def writePolicy (f : Factors) : Policy :=
  { replication := f.replication, success := f.write
    success_pos := f.write_pos, success_le := f.write_le }

/-- Every replica has to succeed, so a single failure decides a unit. -/
def everyReplicaPolicy (f : Factors) : Policy :=
  { replication := f.replication, success := f.replication
    success_pos := Nat.le_trans f.read_pos f.read_le, success_le := Nat.le_refl _ }

/-- The quorum sizes in diagnostic texts. -/
def debug (f : Factors) : String :=
  "QuorumParameters \x7b replication_factor: " ++ toString f.replication ++ ", read_factor: "
    ++ toString f.read ++ ", write_factor: " ++ toString f.write ++ " \x7d"

end Factors

end QuorumStore.Quorum
