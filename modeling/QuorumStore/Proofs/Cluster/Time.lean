import Mathlib.Logic.Relation
import QuorumStore.Cluster.Services
import QuorumStore.Proofs.Cluster.Run

/-!
# Time on a cluster

Where a computation waits time passes, in turns: the first of the calls that go on by themselves arrives
at its replica, is lost or reaches its store, or the clock is set. What every turn keeps a wait keeps.

* `Cluster.Turn`, `Cluster.Turns`: one turn, and any number of them.
* `Cluster.turns_runLateCalls`, `Cluster.turns_advanceTo`: time passes in turns.
* `Run.waitUntil_cases`, `Run.awaitCalls_cases`: a wait is over, or the step is abandoned.
* `Cluster.Called`, `Run.callReplica_cases`: a call to a replica, which may have to wait.
-/

namespace QuorumStore

open Std

variable {α : Type} {c c' : Cluster} {id : ReplicaId} {v : Verb α}

namespace Cluster

/-- One turn while time passes. -/
inductive Turn : Cluster → Cluster → Prop where
  /-- The first call arrives at its replica, and waits there among the others. -/
  | moved {c : Cluster} {first : LateCall} {rest : List LateCall} (due : Nat) (fate : Option Failure)
      (hlate : c.late = first :: rest) (hphase : first.phase = .queued) :
      Turn c { c with late := enqueue { first with due, phase := .waiting fate } rest }
  /-- It is refused, or fails as it is bound to. -/
  | lost {c : Cluster} {first : LateCall} {rest : List LateCall} (hlate : c.late = first :: rest)
      (hphase : first.phase ≠ .waiting none) : Turn c { c with late := rest }
  /-- It reaches its store. -/
  | reached {c : Cluster} {first : LateCall} {rest : List LateCall} (hlate : c.late = first :: rest) :
      Turn c ({ c with late := rest }.call first.replica first.verb).2
  /-- The clock is set. -/
  | clock {c : Cluster} (t : Nat) : Turn c { c with now := t }

/-- Time passes. -/
abbrev Turns : Cluster → Cluster → Prop := Relation.ReflTransGen Turn

/-- What every turn keeps is kept while time passes. -/
theorem Turns.keeps {I : Cluster → Prop} (h : c.Turns c') (hturn : ∀ c c', I c → c.Turn c' → I c')
    (hc : I c) : I c' := by
  induction h with
  | refl => exact hc
  | tail _ hlast ih => exact hturn _ _ ih hlast

theorem call_of_some {r : Replica} (hr : c.replicas[id]? = some r) (v : Verb α) :
    c.call id v = ((r.perform v).1,
      { c with
        replicas := c.replicas.insert id (r.perform v).2
        telemetry := c.telemetry.note (v.notices r.store) }) := by
  unfold call
  rw [hr]

theorem call_of_none (hr : c.replicas[id]? = none) (v : Verb α) :
    c.call id v = (.error (.noReplicas v.operation), c) := by
  unfold call
  rw [hr]

theorem late_call (c : Cluster) (id : ReplicaId) (v : Verb α) : (c.call id v).2.late = c.late := by
  unfold call
  split <;> rfl

/-- Which calls go on by themselves plays no part in a call. -/
theorem call_frame (c : Cluster) (late : List LateCall) (id : ReplicaId) (v : Verb α) :
    ({ c with late }.call id v).2 = { (c.call id v).2 with late } := by
  cases hr : c.replicas[id]? with
  | none => rw [call_of_none hr, call_of_none (c := { c with late }) hr]
  | some r => rw [call_of_some hr, call_of_some (c := { c with late }) hr]

/-- A call whose wait is over is lost or reaches its store. -/
theorem turn_finishLate {first : LateCall} {fate : Option Failure}
    (hphase : first.phase = .queued ∨ first.phase = .waiting fate) (rest : List LateCall) :
    Turn { c with late := first :: rest } { c.finishLate first fate with late := rest } := by
  cases fate with
  | some e =>
    have hnot : first.phase ≠ .waiting none := by
      rcases hphase with hphase | hphase <;> rw [hphase] <;> nofun
    exact .lost (c := { c with late := first :: rest }) rfl hnot
  | none =>
    have hreached := Turn.reached (c := { c with late := first :: rest }) rfl
    have hframe := call_frame { c with late := first :: rest } rest first.replica first.verb
    rw [hframe, call_frame] at hreached
    exact hreached

/-- **The listed calls have their turns**, until one of them is not due. -/
theorem turns_runLateCalls (bound : Nat) (c : Cluster) (calls : List LateCall) :
    Turns { c with late := calls } (c.runLateCalls bound calls) := by
  fun_induction runLateCalls bound c calls with
  | case1 c => exact .refl
  | case2 c first rest hdue => exact .refl
  | case3 c first rest hdue fate hphase ih => exact ih.head (turn_finishLate (.inr hphase) rest)
  | case4 c first rest hdue hphase e hrefused ih =>
    have hnot : first.phase ≠ .waiting none := by
      rw [hphase]
      decide
    exact ih.head (.lost (c := { c with late := first :: rest }) rfl hnot)
  | case5 c first rest hdue hphase fate hadmitted ih =>
    exact ih.head (turn_finishLate (.inl hphase) rest)
  | case6 c first rest hdue hphase wait fate hwait hadmitted ih =>
    exact ih.head (.moved (c := { c with late := first :: rest }) _ fate rfl hphase)

theorem turns_runLate (c : Cluster) (bound : Nat) : c.Turns (c.runLate bound) :=
  turns_runLateCalls bound c c.late

/-- Time passes until `t`. -/
theorem turns_advanceTo (c : Cluster) (t : Nat) : c.Turns (c.advanceTo t) :=
  (c.turns_runLate t).tail (.clock _)

/-- Only with a deadline, and with the same one, a step can be abandoned later. -/
theorem Turn.deadline (h : c.Turn c') : c'.deadline = c.deadline := by
  cases h with
  | reached hlate =>
    unfold call
    split <;> rfl
  | moved | lost | clock => rfl

theorem Turns.deadline (h : c.Turns c') : c'.deadline = c.deadline :=
  h.keeps (I := fun c' => c'.deadline = c.deadline) (fun _ _ hc hturn => hturn.deadline.trans hc) rfl

/-- The failure that a call to a replica is bound to when it is made now, if it is. -/
def refusal (c : Cluster) (id : ReplicaId) : Option Failure :=
  match c.admission id with
  | .refused e => some e
  | .delayed _ fate => fate

/-- The cluster when a call to a replica that is made now has waited. -/
def arrived (c : Cluster) (id : ReplicaId) : Cluster :=
  match c.admission id with
  | .refused _ => c
  | .delayed wait _ => if wait = 0 then c else c.advanceTo (c.now + wait)

theorem turns_arrived (c : Cluster) (id : ReplicaId) : c.Turns (c.arrived id) := by
  unfold arrived
  split
  · exact .refl
  · split
    · exact .refl
    · exact c.turns_advanceTo _

/-- What comes of a call to a replica that is made now: it fails as it is bound to, or reaches its store
when it has waited. -/
inductive Called (c : Cluster) (id : ReplicaId) (v : Verb α) : Except Failure α → Cluster → Prop where
  | refused {e : Failure} (hrefusal : c.refusal id = some e) : Called c id v (.error e) (c.arrived id)
  | reached {result : Except Failure α} {c₁ : Cluster} (hopen : c.refusal id = none)
    (hcall : (c.arrived id).call id v = (result, c₁)) : Called c id v result c₁

end Cluster

namespace Run

/-- **A wait** is over at its time, or the step is abandoned at its deadline. -/
theorem waitUntil_cases (c : Cluster) (t : Nat) :
    (waitUntil t).run.run c = (.ok (), if t ≤ c.now then c else c.advanceTo t) ∨
      ∃ deadline, c.deadline = some deadline ∧
        (waitUntil t).run.run c = (.error .abandoned, c.advanceTo deadline) := by
  unfold waitUntil
  rw [run_bind_ok (run_get c)]
  by_cases ht : t ≤ c.now
  · rw [if_pos ht, if_pos ht]
    exact Or.inl rfl
  · rw [if_neg ht, if_neg ht]
    cases c.deadline with
    | none => exact Or.inl rfl
    | some deadline =>
      dsimp only
      split
      · exact Or.inr ⟨deadline, rfl, rfl⟩
      · exact Or.inl rfl

/-- **A wait for calls** is over when they have their turn, or the step is abandoned at its deadline, and
the calls left behind go on by themselves. -/
theorem awaitCalls_cases (c : Cluster) (t : Nat) (left : List LateCall) :
    (∃ c', (awaitCalls t left).run.run c = (.ok (), c') ∧ c.Turns c') ∨
      ∃ deadline, c.deadline = some deadline ∧ (awaitCalls t left).run.run c =
        (.error .abandoned, { c with
          late := left.foldl (fun late call => Cluster.enqueue call late) c.late }.advanceTo
            deadline) := by
  have hover : c.Turns { c.runLate (t + 1) with now := max c.now t } :=
    (c.turns_runLate (t + 1)).tail (.clock _)
  unfold awaitCalls
  rw [run_bind_ok (run_get c)]
  cases c.deadline with
  | none => exact Or.inl ⟨_, rfl, hover⟩
  | some deadline =>
    dsimp only
    split
    · exact Or.inr ⟨deadline, rfl, rfl⟩
    · exact Or.inl ⟨_, rfl, hover⟩

/-- **A call to a replica** fails as it is bound to, or reaches its store when it has waited, unless the
step is abandoned. -/
theorem callReplica_cases (c : Cluster) (id : ReplicaId) (v : Verb α) :
    (∃ result c', (callReplica id v).run.run c = (.ok result, c') ∧ c.Called id v result c') ∨
      ∃ deadline, c.deadline = some deadline ∧
        (callReplica id v).run.run c = (.error .abandoned, c.advanceTo deadline) := by
  unfold callReplica
  rw [run_bind_ok (run_get c)]
  cases hadmission : c.admission id with
  | refused e =>
    have hrefusal : c.refusal id = some e := by
      unfold Cluster.refusal
      rw [hadmission]
    have hhere : c.arrived id = c := by
      unfold Cluster.arrived
      rw [hadmission]
    have hcalled : c.Called id v (.error e) (c.arrived id) := .refused hrefusal
    rw [hhere] at hcalled
    exact Or.inl ⟨_, c, rfl, hcalled⟩
  | delayed wait fate =>
    have hrefusal : c.refusal id = fate := by
      unfold Cluster.refusal
      rw [hadmission]
    have hwaited : (if c.now + wait ≤ c.now then c else c.advanceTo (c.now + wait)) = c.arrived id := by
      have hwait : c.now + wait ≤ c.now ↔ wait = 0 := by omega
      unfold Cluster.arrived
      rw [hadmission]
      simp only [hwait]
    dsimp only
    rcases waitUntil_cases c (c.now + wait) with hrun | ⟨deadline, hdeadline, hrun⟩
    · rw [hwaited] at hrun
      rw [run_bind_ok hrun]
      cases fate with
      | some e => exact Or.inl ⟨_, _, rfl, .refused hrefusal⟩
      | none => exact Or.inl ⟨_, _, rfl, .reached hrefusal rfl⟩
    · rw [run_bind_error hrun]
      exact Or.inr ⟨deadline, hdeadline, rfl⟩

end Run

end QuorumStore
