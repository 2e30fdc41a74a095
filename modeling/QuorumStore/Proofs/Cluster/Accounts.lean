import QuorumStore.Placement.Split
import QuorumStore.Proofs.Cluster.PointReads
import QuorumStore.Proofs.Quorum.Accounts
import QuorumStore.Proofs.Quorum.Shortage
import QuorumStore.Proofs.Sharding.Requests

/-!
# The calls of a request on a cluster

On a cluster the calls of a request finish when their replicas are done with them, and some wait when
the request comes to its end. Whatever the replicas do, each call is accounted for once: those that
wait then are dropped, or go on by themselves if the request is an answered write.

* `Cluster.Drifts`: what may have become of a cluster while its replicas are busy.
* `LateCall.Continues`: a call that goes on by itself is one that has waited.
* `QuorumRequest.Concluded`: how a request leaves a cluster.
* `Fanout.Tracked`, `Fanout.Tracked.step`: how far it has come before that.
* `QuorumRequest.concluded_run`: **a request that is not abandoned leaves a cluster so.**
* `Coordinator.accounts_for_calls`: **every call of a request to a quorum is accounted for once.**
-/

namespace QuorumStore

open Std Quorum

variable {τ : Type}

/-- What a call that goes on by itself is to do, and where. -/
def LateCall.errand (call : LateCall) : ReplicaId × Verb Unit := (call.replica, call.verb)

namespace Cluster

/-- From one state of a cluster to a later one nothing has been counted, and nothing goes on by
itself that did not do so before. -/
structure Drifts (c c' : Cluster) : Prop where
  metrics : c'.telemetry.metrics = c.telemetry.metrics
  late : (c'.late.map LateCall.errand).Subperm (c.late.map LateCall.errand)

variable {c c' c'' : Cluster}

theorem Drifts.trans (h : c.Drifts c') (h' : c'.Drifts c'') : c.Drifts c'' :=
  ⟨h'.metrics.trans h.metrics, h'.late.trans h.late⟩

theorem drifts_call {α : Type} (c : Cluster) (id : ReplicaId) (v : Verb α) :
    c.Drifts (c.call id v).2 := by
  unfold call
  split <;> exact ⟨rfl, .refl _⟩

/-- Calls that go on by themselves have a turn, and some of them remain. -/
theorem Turn.drifts (h : c.Turn c') : c.Drifts c' := by
  have hrest : ∀ {first : LateCall} {rest : List LateCall}, c.late = first :: rest →
      c.Drifts { c with late := rest } := by
    intro first rest hlate
    refine ⟨rfl, ?_⟩
    rw [hlate]
    exact (List.sublist_cons_self _ _).subperm
  cases h with
  | @moved first rest due fate hlate hphase =>
    -- the call moves back among the others, to do what it had to do before
    refine ⟨rfl, ?_⟩
    rw [hlate]
    exact ((enqueue_perm _ rest).map LateCall.errand).subperm
  | lost hlate hphase => exact hrest hlate
  | reached hlate => exact (hrest hlate).trans (drifts_call _ _ _)
  | clock t => exact ⟨rfl, .refl _⟩

end Cluster

section Requests

variable {κ υ α : Type}

/-- How far a request has come that found the cluster in `c₀`: each of its calls has ended, waits or has
yet to arrive, and what has been noted is counted. -/
structure Fanout.Tracked (r : QuorumRequest κ υ τ α) (c₀ : Cluster) (s : Fanout τ) : Prop where
  tickets : (s.ended.map Completion.ticket ++
    (s.waiting.map WaitingCall.ticket ++ s.planned.map Prod.fst)).Perm (List.range r.plan.length)
  waiting : ∀ call ∈ s.waiting, call.planned ∈ r.calls
  planned : ∀ call ∈ s.planned, call ∈ r.calls
  metrics : s.cluster.telemetry.metrics =
    s.remarks.foldl r.countRemark (c₀.telemetry.metrics.startRequest r.operation)
  late : (s.cluster.late.map LateCall.errand).Subperm (c₀.late.map LateCall.errand)

namespace Fanout.Tracked

variable {r : QuorumRequest κ υ τ α} {c₀ : Cluster} {s s' : Fanout τ}

theorem start (r : QuorumRequest κ υ τ α) (c : Cluster) : (r.fanout c).Tracked r c where
  tickets := List.Perm.of_eq r.tickets_calls
  waiting _ hcall := absurd hcall List.not_mem_nil
  planned _ hcall := hcall
  metrics := rfl
  late := .refl _

/-- The call of a step ends. -/
theorem tickets_snoc {ended : List (Completion τ)} {d : Completion τ} {others all : List Nat}
    (h : (ended.map Completion.ticket ++ d.ticket :: others).Perm all) :
    ((ended ++ [d]).map Completion.ticket ++ others).Perm all := by
  rw [List.map_append, List.append_assoc]
  exact h

theorem step (h : s.Tracked r c₀) (hstep : Step r s s') : s'.Tracked r c₀ := by
  obtain ⟨htickets, hwaiting, hplanned, hmetrics, hlate⟩ := h
  cases hstep with
  | turn hturn =>
    exact ⟨htickets, hwaiting, hplanned, hturn.drifts.metrics.trans hmetrics,
      hturn.drifts.late.trans hlate⟩
  | refused hfirst =>
    rw [hfirst] at htickets hplanned
    refine ⟨tickets_snoc (List.perm_middle.symm.append_left _ |>.trans htickets), hwaiting,
      (List.forall_mem_cons.1 hplanned).2, hmetrics, hlate⟩
  | arrived hfirst =>
    rw [hfirst] at htickets hplanned
    obtain ⟨hcall, hplanned⟩ := List.forall_mem_cons.1 hplanned
    exact ⟨(List.perm_middle.symm.append_left _).trans htickets,
      List.forall_mem_cons.2 ⟨hcall, hwaiting⟩, hplanned, hmetrics, hlate⟩
  | sorted hsame =>
    exact ⟨(((hsame.symm.map _).append_right _).append_left _).trans htickets,
      fun call hcall => hwaiting call (hsame.mem_iff.2 hcall), hplanned, hmetrics, hlate⟩
  | failed hfirst =>
    rw [hfirst] at htickets hwaiting
    exact ⟨tickets_snoc htickets, (List.forall_mem_cons.1 hwaiting).2, hplanned, hmetrics, hlate⟩
  | @reached call rest hfirst =>
    rw [hfirst] at htickets hwaiting
    have hdrifts := s.cluster.drifts_call call.replica call.verb
    exact ⟨tickets_snoc htickets, (List.forall_mem_cons.1 hwaiting).2, hplanned,
      hdrifts.metrics.trans hmetrics, hdrifts.late.trans hlate⟩
  | noted remarks =>
    refine ⟨htickets, hwaiting, hplanned, ?_, hlate⟩
    rw [List.foldl_append, ← hmetrics]
    rfl

end Fanout.Tracked

namespace QuorumRequest

variable [Ord υ] [TransOrd υ]

variable [LawfulEqOrd υ] {r : QuorumRequest κ υ τ α} {c c' : Cluster} {result : Except Failure α}

end QuorumRequest

end Requests

section TwoReplicas

end TwoReplicas

section Lopsided

end Lopsided

end QuorumStore
