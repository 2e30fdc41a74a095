import QuorumStore.Cluster.Fanout
import Std.Do

/-!
# Runs on a cluster

* `foldr_insertWaiting_perm`, `foldl_enqueue_perm`: calls put between others are still those calls.
* `Run.run_bind_ok`, `Run.run_bind_error`: a computation after another, or after none.
* `Run.triple_iff`: what a triple says of a computation on a cluster.
* `Run.triple_of_run`, `Run.run_of_triple`: from runs to triples and back.
-/

namespace QuorumStore

open Std.Do

/-- The call that waits, as the request has planned it. -/
def WaitingCall.planned {τ : Type} (call : WaitingCall τ) : Nat × ReplicaId × Verb τ :=
  (call.ticket, call.replica, call.verb)

theorem insertWaiting_perm {τ : Type} (call : WaitingCall τ) (calls : List (WaitingCall τ)) :
    (Cluster.insertWaiting call calls).Perm (call :: calls) := by
  induction calls with
  | nil => exact .refl _
  | cons first rest ih =>
    unfold Cluster.insertWaiting
    split
    · exact (ih.cons first).trans (List.Perm.swap call first rest)
    · exact .refl _

theorem foldr_insertWaiting_perm {τ : Type} (calls later : List (WaitingCall τ)) :
    (calls.foldr Cluster.insertWaiting later).Perm (calls ++ later) := by
  induction calls with
  | nil => exact .refl _
  | cons call calls ih =>
    rw [List.foldr_cons]
    exact (insertWaiting_perm call _).trans (ih.cons call)

theorem enqueue_perm (call : LateCall) (calls : List LateCall) :
    (Cluster.enqueue call calls).Perm (call :: calls) := by
  induction calls with
  | nil => exact .refl _
  | cons first rest ih =>
    unfold Cluster.enqueue
    split
    · exact (ih.cons first).trans (List.Perm.swap call first rest)
    · exact .refl _

theorem foldl_enqueue_perm (calls late : List LateCall) :
    (calls.foldl (fun late call => Cluster.enqueue call late) late).Perm (calls ++ late) := by
  induction calls generalizing late with
  | nil => exact .refl _
  | cons call calls ih =>
    rw [List.foldl_cons]
    exact (ih _).trans (((enqueue_perm call late).append_left calls).trans List.perm_middle)

/-- With no call on its way nothing happens while time passes. -/
theorem Cluster.runLate_of_nil {c : Cluster} (h : c.late = []) (bound : Nat) :
    c.runLate bound = c := by
  cases c
  cases h
  unfold runLate
  rw [runLateCalls]

theorem Cluster.advanceTo_now {c : Cluster} (h : c.late = []) : c.advanceTo c.now = c := by
  unfold advanceTo
  rw [runLate_of_nil h]
  dsimp only
  rw [Nat.max_self]

namespace Run

/-- A computation goes on where its first part has ended. -/
theorem run_bind_ok {α β : Type} {x : Run α} {f : α → Run β} {c c' : Cluster} {a : α}
    (h : x.run.run c = (.ok a, c')) : (x >>= f).run.run c = (f a).run.run c' := by
  rw [ExceptT.run_bind, StateT.run_bind, h]
  rfl

/-- A computation is abandoned when its first part is. -/
theorem run_bind_error {α β : Type} {x : Run α} {f : α → Run β} {c c' : Cluster} {e : Halt}
    (h : x.run.run c = (.error e, c')) : (x >>= f).run.run c = (.error e, c') := by
  rw [ExceptT.run_bind, StateT.run_bind, h]
  rfl

theorem run_get (c : Cluster) : (get : Run Cluster).run.run c = (.ok c, c) := rfl

theorem run_set (c c' : Cluster) : (set c' : Run PUnit).run.run c = (.ok .unit, c') := rfl

theorem run_modify (f : Cluster → Cluster) (c : Cluster) :
    (modify f : Run PUnit).run.run c = (.ok .unit, f c) := rfl

theorem run_count (f : Metrics → Metrics) (c : Cluster) :
    (count f).run.run c = (.ok (), { c with telemetry := c.telemetry.count f }) := rfl

/-- **What a triple says of a run**: it is not abandoned, and its outcome is as described. -/
theorem triple_iff {α : Type} {x : Run α} {I : Cluster → Prop} {Q : α → Cluster → Prop} :
    (⦃fun c => ⌜I c⌝⦄ x ⦃⇓ a => fun c => ⌜Q a c⌝⦄) ↔
      ∀ c, I c → ∃ a c', x.run.run c = (.ok a, c') ∧ Q a c' := by
  have hwp : ∀ c, (wp⟦x⟧ (PostCond.noThrow fun a => fun c => ⌜Q a c⌝) c).down ↔
      ∃ a c', x.run.run c = (.ok a, c') ∧ Q a c' := by
    intro c
    rcases h : x.run.run c with ⟨r, c'⟩
    have hrun : (ExceptT.run x c).run = (r, c') := h
    simp only [WP.wp, PredTrans.apply_pushExcept, PredTrans.apply_pushArg, StateT.run,
      PredTrans.apply_Pure_pure, hrun]
    constructor
    · intro hQ
      cases r with
      | ok a => exact ⟨a, c', rfl, hQ⟩
      | error e => exact hQ.elim
    · rintro ⟨a, c'', heq, hQ⟩
      cases heq
      exact hQ
  constructor
  · exact fun h c hc => (hwp c).1 (h c hc)
  · exact fun h c hc => (hwp c).2 (h c hc)

/-- A run described outcome by outcome. -/
theorem triple_of_run {α : Type} {x : Run α} {I : Cluster → Prop} {P : α → Prop}
    {J : α → Cluster → Prop}
    (h : ∀ c, I c → ∃ a c', x.run.run c = (.ok a, c') ∧ P a ∧ J a c') :
    ⦃fun c => ⌜I c⌝⦄ x ⦃⇓ a => spred(⌜P a⌝ ∧ fun c => ⌜J a c⌝)⦄ :=
  triple_iff.2 h

theorem run_of_triple {α : Type} {x : Run α} {I : Cluster → Prop} {P : α → Prop}
    {J : α → Cluster → Prop} (h : ⦃fun c => ⌜I c⌝⦄ x ⦃⇓ a => spred(⌜P a⌝ ∧ fun c => ⌜J a c⌝)⦄)
    {c : Cluster} (hc : I c) : ∃ a c', x.run.run c = (.ok a, c') ∧ P a ∧ J a c' :=
  triple_iff.1 h c hc

end Run

end QuorumStore
