import QuorumStore.Proofs.Cluster.Fanout
import QuorumStore.Proofs.Cluster.Openings
import QuorumStore.Proofs.Routed

/-!
# Properties of stores that a cluster keeps

A store changes only when a call reaches it. So a property of stores that all calls leave true stays
true, whatever is asked of a cluster, whether calls fail, wait or go on by themselves, and also where a
request is abandoned.

* `Cluster.Guarded`: the stores of some replicas have a property, and no call on its way ends that.
* `Guarded.turn`, `Fanout.Guarded.step`, `Openings.Guarded.step`: it is kept in each step.
* `Run.Guards`: a computation keeps the property.
* `Coordinator.guards_run`: **a coordinator keeps what the calls that it makes keep.**
* `Run.guards_openAll`: range reads keep everything.
-/

namespace QuorumStore

open Std

/-- The listed replicas have stores with a property, and the calls that go on by themselves leave it
true. -/
structure Cluster.Guarded (J : Store → Prop) (ids : List ReplicaId) (c : Cluster) : Prop where
  late : ∀ call ∈ c.late, call.verb.Preserves J
  replicas : ∀ id ∈ ids, ∃ r, c.replicas[id]? = some r ∧ J r.store

variable {J : Store → Prop} {ids : List ReplicaId} {c c' : Cluster} {id : ReplicaId} {α τ : Type}

namespace Cluster

theorem Guarded.frame (h : c.Guarded J ids) (hreplicas : c'.replicas = c.replicas)
    (hlate : ∀ call ∈ c'.late, call.verb.Preserves J) : c'.Guarded J ids :=
  ⟨hlate, hreplicas ▸ h.replicas⟩

/-- One replica changes and keeps the property. -/
theorem Guarded.insert {r : Replica} (h : c.Guarded J ids) (hr : c.replicas[id]? = some r)
    (r' : Replica) (hkeep : id ∈ ids → J r.store → J r'.store) (hreplicas : c'.replicas = c.replicas.insert id r')
    (hlate : c'.late = c.late) : c'.Guarded J ids := by
  refine ⟨hlate ▸ h.late, fun other hother => ?_⟩
  obtain ⟨r₀, hr₀, hJ⟩ := h.replicas other hother
  rw [hreplicas, ExtTreeMap.getElem?_insert]
  by_cases heq : id = other
  · subst heq
    obtain rfl := Option.some.inj (hr.symm.trans hr₀)
    rw [if_pos compare_self]
    exact ⟨r', rfl, hkeep hother hJ⟩
  · rw [if_neg fun hc => heq (LawfulEqOrd.eq_of_compare hc)]
    exact ⟨r₀, hr₀, hJ⟩

/-- **A call reaches its store.** -/
theorem Guarded.call {v : Verb α} (h : c.Guarded J ids) (id : ReplicaId)
    (hv : id ∈ ids → v.Preserves J) : (c.call id v).2.Guarded J ids := by
  unfold Cluster.call
  split
  · exact h
  · rename_i r hr
    exact h.insert hr _ (fun hid => hv hid r.store) rfl rfl

theorem Guarded.openRange (h : c.Guarded J ids) (id : ReplicaId) (read : RangeRead τ)
    (range : RowRange) : (c.openRange id read range).2.Guarded J ids := by
  unfold Cluster.openRange
  split
  · exact h
  · rename_i r hr
    exact h.insert hr (r.openRange read.projection read.table range read.time).2 (fun _ hJ => hJ) rfl rfl

/-- A property of calls is one of the calls put in a queue. -/
theorem forall_enqueue {P : LateCall → Prop} {call : LateCall} {calls : List LateCall}
    (hcall : P call) (hcalls : ∀ other ∈ calls, P other) : ∀ other ∈ enqueue call calls, P other := by
  intro other hother
  rcases List.mem_cons.1 ((enqueue_perm call calls).mem_iff.1 hother) with rfl | hother
  · exact hcall
  · exact hcalls other hother

/-- **Calls that go on by themselves reach their stores**, or fail. -/
theorem Guarded.turn (h : c.Guarded J ids) (hturn : c.Turn c') : c'.Guarded J ids := by
  cases hturn with
  | clock t => exact h.frame rfl h.late
  | moved due fate hlate hphase =>
    obtain ⟨hfirst, hrest⟩ := List.forall_mem_cons.1 (hlate ▸ h.late)
    exact h.frame rfl (forall_enqueue hfirst hrest)
  | lost hlate hphase => exact h.frame rfl (List.forall_mem_cons.1 (hlate ▸ h.late)).2
  | @reached first rest hlate =>
    obtain ⟨hfirst, hrest⟩ := List.forall_mem_cons.1 (hlate ▸ h.late)
    have hothers : { c with late := rest }.Guarded J ids := h.frame rfl hrest
    exact hothers.call _ fun _ => hfirst

theorem Guarded.turns (h : c.Guarded J ids) (hturns : c.Turns c') : c'.Guarded J ids :=
  hturns.keeps (fun _ _ h hturn => h.turn hturn) h

theorem Guarded.advanceTo (h : c.Guarded J ids) (t : Nat) : (c.advanceTo t).Guarded J ids :=
  h.turns (c.turns_advanceTo t)

/-- More calls go on by themselves. -/
theorem Guarded.leave (h : c.Guarded J ids) {left : List LateCall}
    (hleft : ∀ call ∈ left, call.verb.Preserves J) :
    { c with late := left.foldl (fun late call => enqueue call late) c.late }.Guarded J ids := by
  refine h.frame rfl fun call hcall => ?_
  rcases List.mem_append.1 ((foldl_enqueue_perm left c.late).mem_iff.1 hcall) with hcall | hcall
  · exact hleft call hcall
  · exact h.late call hcall

end Cluster

section Requests

variable {κ υ : Type} {q : QuorumRequest κ υ τ α} {s s' : Fanout τ}

/-- While a request runs its cluster is guarded, and no call of it ends the property. -/
structure Fanout.Guarded (J : Store → Prop) (ids : List ReplicaId) (s : Fanout τ) : Prop where
  cluster : s.cluster.Guarded J ids
  planned : ∀ call ∈ s.planned, call.2.2.Preserves J
  waiting : ∀ call ∈ s.waiting, call.verb.Preserves J

theorem Fanout.Guarded.step (h : s.Guarded J ids) (hstep : Step q s s') : s'.Guarded J ids := by
  cases hstep with
  | turn hturn => exact ⟨h.cluster.turn hturn, h.planned, h.waiting⟩
  | refused hplanned =>
    exact ⟨h.cluster, (List.forall_mem_cons.1 (hplanned ▸ h.planned)).2, h.waiting⟩
  | arrived hplanned =>
    obtain ⟨hfirst, hrest⟩ := List.forall_mem_cons.1 (hplanned ▸ h.planned)
    exact ⟨h.cluster, hrest, List.forall_mem_cons.2 ⟨hfirst, h.waiting⟩⟩
  | sorted hperm => exact ⟨h.cluster, h.planned, fun call hcall => h.waiting call (hperm.mem_iff.2 hcall)⟩
  | failed hwaiting =>
    exact ⟨h.cluster, h.planned, (List.forall_mem_cons.1 (hwaiting ▸ h.waiting)).2⟩
  | reached hwaiting =>
    obtain ⟨hfirst, hrest⟩ := List.forall_mem_cons.1 (hwaiting ▸ h.waiting)
    exact ⟨h.cluster.call _ fun _ => hfirst, h.planned, hrest⟩
  | noted remarks => exact ⟨h.cluster.frame rfl h.cluster.late, h.planned, h.waiting⟩

theorem QuorumRequest.preserves_late {mode : Mode τ} {waiting : List (WaitingCall τ)}
    (hwaiting : ∀ call ∈ waiting, call.verb.Preserves J) :
    ∀ call ∈ mode.late waiting, call.verb.Preserves J := by
  cases mode with
  | read => exact fun _ hcall => absurd hcall List.not_mem_nil
  | write => exact List.forall_mem_map.2 hwaiting

theorem QuorumRequest.preserves_queued {mode : Mode τ} {now : Nat}
    {calls : List (Nat × ReplicaId × Verb τ)} (hcalls : ∀ call ∈ calls, call.2.2.Preserves J) :
    ∀ call ∈ mode.queued now (calls.map Prod.snd), call.verb.Preserves J := by
  cases mode with
  | read => exact fun _ hcall => absurd hcall List.not_mem_nil
  | write => exact List.forall_mem_map.2 (List.forall_mem_map.2 hcalls)

/-- The calls that a request leaves behind are as good as all its calls. -/
theorem Fanout.Guarded.ends [Ord υ] [TransOrd υ]
    {outcome : Except Halt (Except Failure α) × Cluster} (h : s.Guarded J ids)
    (hends : s.Ends q outcome) : outcome.2.Guarded J ids := by
  cases hends with
  | @concluded g progress hdrain hplanned hwaiting =>
    cases progress with
    | answered =>
      have hleft : ∀ call ∈ q.mode.late s.waiting, call.verb.Preserves J :=
        QuorumRequest.preserves_late h.waiting
      have hguarded := h.cluster.leave hleft
      exact hguarded.frame rfl hguarded.late
    | undecided | unreachable => exact h.cluster.frame rfl h.cluster.late
  | abandoned hdeadline hleft =>
    refine (h.cluster.leave ?_).advanceTo _
    rcases hleft with ⟨-, rfl⟩ | ⟨-, rfl⟩
    · exact QuorumRequest.preserves_late h.waiting
    · exact QuorumRequest.preserves_queued h.planned

end Requests

section RangeReads

variable {read : RangeRead τ} {range : RowRange} {asked : List ReplicaId} {s s' : Openings τ}

/-- Range reads keep every property of stores. -/
theorem Openings.guarded_step (h : s.cluster.Guarded J ids) (hstep : Step read range asked s s') :
    s'.cluster.Guarded J ids := by
  cases hstep with
  | turn hturn => exact h.turn hturn
  | failed => exact h
  | opened => exact h.openRange _ read range

end RangeReads

namespace Run

/-- A computation keeps a property of stores, also where it is abandoned. -/
def Guards (J : Store → Prop) (ids : List ReplicaId) (x : Run α) : Prop :=
  ∀ c : Cluster, c.Guarded J ids → (x.run.run c).2.Guarded J ids

variable {β : Type} {x : Run α} {f : α → Run β}

theorem Guards.pure (a : α) : Guards J ids (Pure.pure a : Run α) := fun _ h => h

theorem Guards.bind (hx : Guards J ids x) (hf : ∀ a, Guards J ids (f a)) :
    Guards J ids (x >>= f) := by
  intro c h
  have hfirst := hx c h
  rcases hrun : x.run.run c with ⟨_ | a, c'⟩
  · rw [run_bind_error hrun]
    rwa [hrun] at hfirst
  · rw [run_bind_ok hrun]
    rw [hrun] at hfirst
    exact hf a c' hfirst

/-- A computation that looks at the cluster first. -/
theorem Guards.get_bind {f : Cluster → Run α}
    (h : ∀ c : Cluster, c.Guarded J ids → ((f c).run.run c).2.Guarded J ids) :
    Guards J ids (get >>= f) := fun c hc => h c hc

/-- Telemetry plays no part. -/
theorem guards_count (f : Metrics → Metrics) : Guards J ids (count f) :=
  fun _ h => h.frame rfl h.late

theorem guards_note (event : LogEvent) : Guards J ids (note event) := fun _ h => h.frame rfl h.late

/-- **A request keeps what its calls keep.** -/
theorem guards_request {κ υ : Type} [Ord υ] [TransOrd υ] {q : QuorumRequest κ υ τ α}
    (hcalls : ∀ call ∈ q.calls, call.2.2.Preserves J) : Guards J ids q.run := by
  intro c h
  obtain ⟨s, hsteps, hends⟩ := q.run_endsInSteps c
  have hstart : (q.fanout c).Guarded J ids :=
    ⟨h.frame rfl h.late, hcalls, fun _ hcall => absurd hcall List.not_mem_nil⟩
  exact (hsteps.keeps (fun _ _ h hstep => h.step hstep) hstart).ends hends

/-- A replica is asked, as long as it takes. -/
theorem guards_callReplica {v : Verb α} (id : ReplicaId) (hv : id ∈ ids → v.Preserves J) :
    Guards J ids (callReplica id v) := by
  intro c h
  rcases callReplica_cases c id v with ⟨result, c', hrun, hcalled⟩ | ⟨deadline, -, hrun⟩
  · rw [hrun]
    have harrived := h.turns (c.turns_arrived id)
    cases hcalled with
    | refused hrefusal => exact harrived
    | reached hopen hcall =>
      have hdone := harrived.call id hv
      rwa [hcall] at hdone
  · rw [hrun]
    exact h.advanceTo deadline

theorem guards_applyToAll {v : Verb Unit} {failed : ReplicaId → Failure → LogEvent}
    {asked : List ReplicaId} (hv : ∀ id ∈ asked, id ∈ ids → v.Preserves J) :
    Guards J ids (applyToAll (callReplica · v) (fun id e => note (failed id e)) asked) := by
  induction asked with
  | nil => exact .pure _
  | cons id asked ih =>
    obtain ⟨hfirst, hrest⟩ := List.forall_mem_cons.1 hv
    refine Guards.bind (guards_callReplica id hfirst) fun result => ?_
    cases result with
    | ok _ => exact ih hrest
    | error e => exact Guards.bind (guards_note _) fun _ => .pure _

theorem guards_firstAnswer {v : Verb α} {failed : ReplicaId → Failure → LogEvent}
    {asked : List ReplicaId} (hv : ∀ id ∈ asked, id ∈ ids → v.Preserves J) (last : Failure) :
    Guards J ids (firstAnswer (callReplica · v) (fun id e => note (failed id e)) last asked) := by
  induction asked generalizing last with
  | nil => exact .pure _
  | cons id asked ih =>
    obtain ⟨hfirst, hrest⟩ := List.forall_mem_cons.1 hv
    refine Guards.bind (guards_callReplica id hfirst) fun result => ?_
    cases result with
    | ok a => exact .pure _
    | error e => exact Guards.bind (guards_note _) fun _ => ih hrest e

/-- **Range reads keep every property of stores.** -/
theorem guards_openAll (read : RangeRead τ) (range : RowRange) (asked : List ReplicaId) :
    Guards J ids (openAll read range asked) := by
  intro c h
  have hkept : ∀ {s' : Openings τ}, Openings.Steps read range asked ⟨c, []⟩ s' →
      s'.cluster.Guarded J ids := fun hsteps =>
    hsteps.keeps (I := fun s => s.cluster.Guarded J ids)
      (fun _ _ h hstep => Openings.guarded_step h hstep) h
  show ((openAll read range asked).run.run (⟨c, []⟩ : Openings τ).cluster).2.Guarded J ids
  cases openAll_opens read range asked ⟨c, []⟩ with
  | abandoned hsteps _ hrun | ended hsteps hrun =>
    rw [hrun]
    exact hkept hsteps

end Run

namespace Coordinator

variable {k : Coordinator}

/-- **A coordinator keeps what the calls that it makes keep**, whatever it is asked for. A call to a
replica in turn is over when it has an answer; only those of a request to a quorum can go on by
themselves, and reach a store later. -/
theorem guards_run {v : Verb α}
    (hrouted : ∀ q, k.routed? v = some q → ∀ call ∈ q.request.calls, call.2.2.Preserves J)
    (hturn : k.routed? v = none → ∀ id ∈ k.placement.replicas, id ∈ ids → v.Preserves J) :
    Run.Guards J ids (k.run v) := by
  cases hq : k.routed? v with
  | some q =>
    rw [run_eq hq]
    exact Run.guards_request (hrouted q hq)
  | none =>
    have hv := hturn hq
    have hbroadcast : ∀ w : Verb Unit, (∀ id ∈ k.placement.replicas, id ∈ ids → w.Preserves J) →
        Run.Guards J ids (k.broadcast w) := fun w hw =>
      Run.Guards.bind (Run.guards_count _) fun _ => Run.guards_applyToAll hw
    have hfallback : ∀ {β : Type} (w : Verb β),
        (∀ id ∈ k.placement.replicas, id ∈ ids → w.Preserves J) →
        Run.Guards J ids (k.fallback w) := fun w hw =>
      Run.Guards.bind (Run.guards_count _) fun _ => Run.guards_firstAnswer hw _
    cases v with
    | createTable | dropTable | truncateTable | putMetadata | compact | prepareFresh | close
    | teardown => exact hbroadcast _ hv
    | tableNames | getMetadata | allMetadata => exact hfallback _ hv
    | _ => cases hq

end Coordinator

end QuorumStore
