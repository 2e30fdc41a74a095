import QuorumStore.Quorum.Factors

/-!
# Counting the answers to one request

A request consists of units (cells, rows or entries). Each call to a replica carries some of
them; when it resolves, each of those is credited with a success or a failure. A unit is decided
by whichever threshold of the policy it reaches first, and stays decided.

* `Tally.ofUnits`: the count before any call.
* `Tally.register`: the units that a call, named by a handle, will count for.
* `Tally.resolve`: the effect of a call's outcome.
* `Tally.cancel`: the end of counting.
-/

namespace QuorumStore.Quorum

open Std

/-- What is known of one unit. -/
inductive Verdict where
  /-- Neither threshold is reached. -/
  | pending
  /-- The success threshold was reached first. -/
  | succeeded
  /-- The failure threshold was reached first. -/
  | failed
  deriving DecidableEq

/-- The answers of one unit. -/
structure UnitCount where
  /-- Calls that succeeded. -/
  successes : Nat := 0
  /-- Calls that failed. -/
  failures : Nat := 0
  /-- The verdict they led to. -/
  verdict : Verdict := .pending
  deriving DecidableEq

namespace UnitCount

/-- One more answer, without a look at the thresholds. -/
def add (c : UnitCount) (success : Bool) : UnitCount :=
  if success then { c with successes := c.successes + 1 }
  else { c with failures := c.failures + 1 }

/-- The verdict that the counts of an undecided unit call for. -/
def judge (c : UnitCount) (p : Policy) : Verdict :=
  if p.success ≤ c.successes then .succeeded
  else if p.failure ≤ c.failures then .failed
  else .pending

/-- One more answer; a unit without a verdict is judged anew. -/
def credit (c : UnitCount) (p : Policy) (success : Bool) : UnitCount :=
  let c := c.add success
  if c.verdict = .pending then { c with verdict := c.judge p } else c

end UnitCount

/-- The count of one request, with handles `η` for its calls and units `υ`. -/
structure Tally (η υ : Type) [Ord η] [Ord υ] where
  /-- The thresholds. -/
  policy : Policy
  /-- The answers of every unit. -/
  units : ExtTreeMap υ UnitCount
  /-- The calls on their way, with the units they count for. -/
  calls : ExtTreeMap η (ExtTreeSet υ)
  /-- How many units have no verdict. -/
  undecided : Nat
  /-- Whether some unit failed. -/
  failed : Bool
  /-- Whether counting has ended. -/
  cancelled : Bool

namespace Tally

variable {η υ : Type} [Ord η] [TransOrd η] [Ord υ] [TransOrd υ]

/-- The count before any call. A unit that is listed twice counts once. -/
def ofUnits (units : List υ) (policy : Policy) : Tally η υ :=
  let units := ExtTreeMap.ofList (units.map fun u => (u, {})) compare
  { policy, units, calls := ∅, undecided := units.size, failed := false, cancelled := false }

/-- A call is on its way that counts for `units`; what is no unit of the request is left out. -/
def register (t : Tally η υ) (handle : η) (units : List υ) : Tally η υ :=
  let covered := ExtTreeSet.ofList (units.filter t.units.contains) compare
  { t with calls := t.calls.insert handle covered }

/-- Whether a call is on its way and still counts. -/
def isOutstanding (t : Tally η υ) (handle : η) : Bool := !t.cancelled && t.calls.contains handle

/-- Credits one answer to one unit. -/
def creditUnit (success : Bool) (t : Tally η υ) (unit : υ) : Tally η υ :=
  match t.units[unit]? with
  | none => t
  | some old =>
    let new := old.credit t.policy success
    let t := { t with units := t.units.insert unit new }
    if old.verdict = .pending ∧ new.verdict ≠ .pending then
      { t with undecided := t.undecided - 1, failed := t.failed || new.verdict = .failed }
    else t

/-- A call has resolved. Unknown and resolved handles count for nothing, and so does every call
after the end of counting. -/
def resolve (t : Tally η υ) (handle : η) (success : Bool) : Tally η υ :=
  if t.cancelled then t
  else match t.calls[handle]? with
    | none => t
    | some covered =>
      covered.toList.foldl (creditUnit success) { t with calls := t.calls.erase handle }

/-- Whether every unit has a verdict. -/
def finished (t : Tally η υ) : Bool := t.undecided = 0

/-- How many registered calls have not resolved. -/
def outstanding (t : Tally η υ) : Nat := t.calls.size

/-- Ends the counting. With `interrupt` the calls on their way are given up and returned; without
it they stay on their way. -/
def cancel (t : Tally η υ) (interrupt : Bool) : List η × Tally η υ :=
  if interrupt then (t.calls.keys, { t with calls := ∅, cancelled := true })
  else ([], { t with cancelled := true })

end Tally

end QuorumStore.Quorum
