import QuorumStore.Proofs.Cluster.Calm
import QuorumStore.Proofs.Cluster.Fanout
import QuorumStore.Proofs.Quorum.Backers

/-!
# Requests on a calm cluster

On a cluster without faults every call of a request reaches the store of its replica once, some of
them perhaps after the request has been answered. No replica is called twice, so what a call does
and answers depends on what its replica held before the request.

* `Reached`: the stores after some calls.
* `Cluster.Serves`: a cluster without faults, some of whose replicas have been called.
* `Serves.call`: a call reaches its store.
* `Serves.turns`: calls that go on by themselves reach their stores later.
* `Fanout.Serves`, `Fanout.Serves.step`: what is kept while a request runs.
* `QuorumRequest.run_calm`: **a request comes to the verdict on the answers of calls that have reached
  their stores**, and leaves the others to go on.
-/

namespace QuorumStore

open Std Quorum

variable {τ : Type} {stores stores' : ReplicaId → Store} {id : ReplicaId} {verb : Verb τ}

/-- The stores after calls to different replicas: each has answered the call made to it. -/
structure Reached (stores : ReplicaId → Store) (calls : List (Nat × ReplicaId × Verb τ))
    (stores' : ReplicaId → Store) : Prop where
  called : ∀ call ∈ calls, stores' call.2.1 = (Store.run call.2.2 (stores call.2.1)).2
  spared : ∀ id, id ∉ calls.map (·.2.1) → stores' id = stores id

/-- A call goes on by itself: it has arrived, and nothing keeps it from its store. -/
def LateCall.Carries (call : Nat × ReplicaId × Verb Unit) (l : LateCall) : Prop :=
  l.phase = .waiting none ∧ l.replica = call.2.1 ∧ l.verb = call.2.2

/-- What a call is answered with. -/
def completionOf (stores : ReplicaId → Store) (call : Nat × ReplicaId × Verb τ) : Completion τ where
  ticket := call.1
  replica := call.2.1
  result := (Store.run call.2.2 (stores call.2.1)).1

namespace Reached

variable {calls calls' : List (Nat × ReplicaId × Verb τ)} {ticket : Nat}

theorem nil (stores : ReplicaId → Store) :
    Reached stores ([] : List (Nat × ReplicaId × Verb τ)) stores :=
  ⟨fun _ h => absurd h List.not_mem_nil, fun _ _ => rfl⟩

theorem perm (h : Reached stores calls stores') (hperm : calls.Perm calls') :
    Reached stores calls' stores' := by
  refine ⟨fun call hcall => h.called call (hperm.mem_iff.2 hcall), fun id hid => h.spared id ?_⟩
  rw [(hperm.map _).mem_iff]
  exact hid

/-- One more replica is called. -/
theorem snoc (h : Reached stores calls stores') (hnew : id ∉ calls.map (·.2.1)) :
    Reached stores (calls ++ [(ticket, id, verb)])
      (Function.update stores' id (Store.run verb (stores' id)).2) := by
  refine ⟨fun call hcall => ?_, fun other hother => ?_⟩
  · rcases List.mem_append.1 hcall with hold | hlast
    · have hne : call.2.1 ≠ id := by
        rintro rfl
        exact hnew (List.mem_map_of_mem hold)
      rw [Function.update_of_ne hne]
      exact h.called call hold
    · rw [List.mem_singleton.1 hlast, Function.update_self, h.spared id hnew]
  · rw [List.map_append, List.mem_append, not_or] at hother
    have hne : other ≠ id := fun heq => hother.2 (by simp [heq])
    rw [Function.update_of_ne hne]
    exact h.spared other hother.1

end Reached

namespace Cluster

/-- A cluster without faults and without a deadline. The listed replicas had the given stores, and
some of them have been called since. -/
structure Serves (k : Coordinator) (ids : List ReplicaId) (stores : ReplicaId → Store)
    (calls : List (Nat × ReplicaId × Verb τ)) (c : Cluster) : Prop where
  coordinator : c.coordinator = some k
  deadline : c.deadline = none
  replicas : ∃ stores', Reached stores calls stores' ∧
    ∀ id ∈ ids, ∃ r, c.replicas[id]? = some r ∧ r.Healthy ∧ r.store = stores' id

variable {k : Coordinator} {ids : List ReplicaId} {c c' : Cluster} {ticket : Nat}
  {calls served : List (Nat × ReplicaId × Verb τ)}

theorem Calm.serves (h : c.Calm k ids stores) :
    c.Serves k ids stores ([] : List (Nat × ReplicaId × Verb τ)) :=
  ⟨h.coordinator, h.deadline, stores, .nil stores, h.replicas⟩

/-- Without calls on their way the cluster is calm again. -/
theorem Serves.calm (h : c.Serves k ids stores calls) (hlate : c.late = []) :
    ∃ stores', Reached stores calls stores' ∧ c.Calm k ids stores' := by
  obtain ⟨stores', hreached, hreplicas⟩ := h.replicas
  exact ⟨stores', hreached, h.coordinator, hlate, h.deadline, hreplicas⟩

theorem Serves.frame (h : c.Serves k ids stores calls) (hreplicas : c'.replicas = c.replicas)
    (hdeadline : c'.deadline = c.deadline) (hcoordinator : c'.coordinator = c.coordinator) :
    c'.Serves k ids stores calls := by
  refine ⟨hcoordinator.trans h.coordinator, hdeadline.trans h.deadline, ?_⟩
  rw [hreplicas]
  exact h.replicas

theorem Serves.perm (h : c.Serves k ids stores served) (hperm : served.Perm calls) :
    c.Serves k ids stores calls := by
  obtain ⟨stores', hreached, hreplicas⟩ := h.replicas
  exact ⟨h.coordinator, h.deadline, stores', hreached.perm hperm, hreplicas⟩

theorem Serves.admission (h : c.Serves k ids stores calls) (hid : id ∈ ids) :
    ∃ wait, c.admission id = .delayed wait none := by
  obtain ⟨_, -, hreplicas⟩ := h.replicas
  obtain ⟨r, hr, hhealthy, -⟩ := hreplicas id hid
  refine ⟨r.faults.latency, ?_⟩
  unfold Cluster.admission
  rw [hr]
  exact hhealthy.admission

/-- **A call reaches its store**, and is answered from what the replica held at first. -/
theorem Serves.call (h : c.Serves k ids stores served) (ticket : Nat) (verb : Verb τ)
    (hid : id ∈ ids) (hnew : id ∉ served.map (·.2.1)) :
    (c.call id verb).1 = (Store.run verb (stores id)).1 ∧
      (c.call id verb).2.Serves k ids stores (served ++ [(ticket, id, verb)]) ∧
      (c.call id verb).2.late = c.late := by
  obtain ⟨stores', hreached, hreplicas⟩ := h.replicas
  obtain ⟨r, hr, hhealthy, hstore⟩ := hreplicas id hid
  have hcall : c.call id verb = ((r.perform verb).1,
      { c with
        replicas := c.replicas.insert id (r.perform verb).2
        telemetry := c.telemetry.note (verb.notices r.store) }) := by
    unfold Cluster.call
    rw [hr]
  have hperform : r.perform verb = ((Store.run verb (stores' id)).1,
      { r with store := (Store.run verb (stores' id)).2, completed := r.completed + 1 }) := by
    unfold Replica.perform
    rw [hstore]
  rw [hcall, hperform, hreached.spared id hnew]
  refine ⟨rfl, ⟨h.coordinator, h.deadline, _, hreached.snoc hnew, fun other hother => ?_⟩, rfl⟩
  show ∃ r, (c.replicas.insert id _)[other]? = some r ∧ _
  rw [ExtTreeMap.getElem?_insert]
  by_cases heq : id = other
  · subst heq
    rw [if_pos compare_self, Function.update_self, hreached.spared id hnew]
    exact ⟨_, rfl, ⟨hhealthy.injected, hhealthy.outage, hhealthy.failing, hhealthy.cursorLimit⟩,
      rfl⟩
  · rw [if_neg fun hc => heq (LawfulEqOrd.eq_of_compare hc),
      Function.update_of_ne (Ne.symm heq)]
    exact hreplicas other hother

/-- The first of the calls to come reaches its store. -/
theorem Serves.call_first {served calls : List (Nat × ReplicaId × Verb τ)}
    (h : c.Serves k ids stores served) (call : Nat × ReplicaId × Verb τ)
    (hids : ∀ call ∈ calls, call.2.1 ∈ ids) (hnodup : (calls.map (·.2.1)).Nodup)
    {rest : List (Nat × ReplicaId × Verb τ)} (hperm : (served ++ call :: rest).Perm calls) :
    (c.call call.2.1 call.2.2).1 = (Store.run call.2.2 (stores call.2.1)).1 ∧
      (c.call call.2.1 call.2.2).2.Serves k ids stores (served ++ [call]) ∧
      (c.call call.2.1 call.2.2).2.late = c.late := by
  have hid := hids call (hperm.mem_iff.1 (List.mem_append_right _ List.mem_cons_self))
  have hdistinct := (hperm.map (·.2.1)).nodup_iff.2 hnodup
  rw [List.map_append, List.nodup_append] at hdistinct
  exact h.call call.1 call.2.2 hid fun hmem => hdistinct.2.2 _ hmem _ List.mem_cons_self rfl

/-- **Calls that go on by themselves** reach their stores, unless some have not had their turn. -/
theorem Serves.turns {served pending : List (Nat × ReplicaId × Verb Unit)}
    (h : c.Serves k ids stores served) (hlate : List.Forall₂ LateCall.Carries pending c.late)
    (hids : ∀ call ∈ served ++ pending, call.2.1 ∈ ids)
    (hnodup : ((served ++ pending).map (·.2.1)).Nodup) (hturns : c.Turns c') (hdone : c'.late = []) :
    c'.Serves k ids stores (served ++ pending) := by
  -- some of the calls have been served, and the others still go on
  obtain ⟨served', pending', hserves, hlate', hperm⟩ : ∃ served' pending',
      c'.Serves k ids stores served' ∧ List.Forall₂ LateCall.Carries pending' c'.late ∧
        (served' ++ pending').Perm (served ++ pending) := by
    refine hturns.keeps (I := fun c => ∃ served' pending', c.Serves k ids stores served' ∧
      List.Forall₂ LateCall.Carries pending' c.late ∧ (served' ++ pending').Perm (served ++ pending))
      (fun c c' hkept hturn => ?_) ⟨served, pending, h, hlate, .refl _⟩
    obtain ⟨served', pending', hserves, hlate, hperm⟩ := hkept
    cases hturn with
    | clock t => exact ⟨served', pending', hserves.frame rfl rfl rfl, hlate, hperm⟩
    | moved due fate hcalls hphase =>
      rw [hcalls] at hlate
      cases hlate with
      | cons hfirst hrest => cases hphase.symm.trans hfirst.1
    | lost hcalls hphase =>
      rw [hcalls] at hlate
      cases hlate with
      | cons hfirst hrest => exact absurd hfirst.1 hphase
    | @reached first rest hcalls =>
      rw [hcalls] at hlate
      cases hlate with
      | @cons call _ pending' _ hfirst hrest =>
        obtain ⟨-, hreplica, hverb⟩ := hfirst
        have hothers : { c with late := rest }.Serves k ids stores served' := hserves.frame rfl rfl rfl
        obtain ⟨-, hserves', hlate'⟩ := hothers.call_first call hids hnodup hperm
        rw [hreplica, hverb]
        refine ⟨served' ++ [call], pending', hserves', ?_, ?_⟩
        · rw [hlate']
          exact hrest
        · rw [List.append_assoc]
          exact hperm
  rw [hdone] at hlate'
  cases hlate'
  rw [List.append_nil] at hperm
  exact hserves.perm hperm

end Cluster

section Fanout

variable {κ υ α : Type} {q : QuorumRequest κ υ τ α} {k : Coordinator} {ids : List ReplicaId}
  {calls : List (Nat × ReplicaId × Verb τ)} {s s' : Fanout τ}

/-- While a request runs on a calm cluster some of its calls have reached their stores, and nothing keeps
the others from theirs. -/
def Fanout.Serves (k : Coordinator) (ids : List ReplicaId) (stores : ReplicaId → Store)
    (calls : List (Nat × ReplicaId × Verb τ)) (s : Fanout τ) : Prop :=
  ∃ served, s.cluster.Serves k ids stores served ∧ s.cluster.late = [] ∧
    s.ended = served.map (completionOf stores) ∧
    (served ++ (s.waiting.map WaitingCall.planned ++ s.planned)).Perm calls ∧
    ∀ call ∈ s.waiting, call.fate = none

theorem Fanout.Serves.step (hids : ∀ call ∈ calls, call.2.1 ∈ ids)
    (hnodup : (calls.map (·.2.1)).Nodup) (h : s.Serves k ids stores calls) (hstep : Step q s s') :
    s'.Serves k ids stores calls := by
  obtain ⟨served, hserves, hlate, hended, hperm, hfates⟩ := h
  -- a call that is planned is made to one of the replicas
  have hplannedIds : ∀ {call rest}, s.planned = call :: rest → call.2.1 ∈ ids := by
    intro call rest hplanned
    refine hids call (hperm.mem_iff.1 ?_)
    rw [hplanned]
    exact List.mem_append_right _ (List.mem_append_right _ List.mem_cons_self)
  cases hstep with
  | turn hturn =>
    cases hturn with
    | clock t => exact ⟨served, hserves.frame rfl rfl rfl, hlate, hended, hperm, hfates⟩
    | moved _ _ hcalls | lost hcalls | reached hcalls =>
      rw [hlate] at hcalls
      cases hcalls
  | refused hplanned hadmission =>
    obtain ⟨wait, hdelayed⟩ := hserves.admission (hplannedIds hplanned)
    cases hdelayed.symm.trans hadmission
  | @arrived ticket replica verb rest _ _ hplanned hadmission =>
    obtain ⟨wait, hdelayed⟩ := hserves.admission (hplannedIds hplanned)
    cases hdelayed.symm.trans hadmission
    refine ⟨served, hserves, hlate, hended, ?_, List.forall_mem_cons.2 ⟨rfl, hfates⟩⟩
    rw [hplanned] at hperm
    exact (List.perm_middle.symm.append_left served).trans hperm
  | sorted hsame =>
    refine ⟨served, hserves, hlate, hended, ?_, fun call hcall => hfates call (hsame.mem_iff.2 hcall)⟩
    exact (((hsame.symm.map _).append_right s.planned).append_left served).trans hperm
  | failed hwaiting hfate =>
    cases (hfates _ (hwaiting ▸ List.mem_cons_self)).symm.trans hfate
  | @reached call rest hwaiting hfate =>
    rw [hwaiting] at hperm hfates
    obtain ⟨hresult, hserves', hlate'⟩ := hserves.call_first call.planned hids hnodup hperm
    refine ⟨served ++ [call.planned], hserves', hlate'.trans hlate, ?_, ?_,
      (List.forall_mem_cons.1 hfates).2⟩
    · show s.ended ++ [⟨call.ticket, call.replica, _⟩] = (served ++ [call.planned]).map _
      rw [hended, List.map_append]
      exact congrArg (fun result => _ ++ [Completion.mk call.ticket call.replica result]) hresult
    · rw [List.append_assoc]
      exact hperm
  | noted remarks => exact ⟨served, hserves.frame rfl rfl rfl, hlate, hended, hperm, hfates⟩

end Fanout

namespace QuorumRequest

variable {κ υ α : Type}

/-- The calls of a request are made to the replicas of its plan. -/
theorem replicas_calls (q : QuorumRequest κ υ τ α) :
    q.calls.map (·.2.1) = q.plan.map Prod.fst := by
  unfold calls
  rw [List.map_map]
  show List.map (Prod.fst ∘ Prod.fst) q.plan.zipIdx = _
  rw [← List.map_map, List.zipIdx_map_fst]

/-- The calls of a request are numbered in turn. -/
theorem tickets_calls (q : QuorumRequest κ υ τ α) :
    q.calls.map Prod.fst = List.range q.plan.length := by
  unfold calls
  rw [List.map_map]
  exact (List.zipIdx_map_snd 0 q.plan).trans List.range_eq_range'.symm

variable [Ord υ] [TransOrd υ] {q : QuorumRequest κ υ τ α}

/-- What a request comes to on a calm cluster: the verdict on the answers of calls that have reached
their stores. The others are left, to go on if the request is an answered write. -/
def Settles (q : QuorumRequest κ υ τ α) (k : Coordinator) (ids : List ReplicaId)
    (stores : ReplicaId → Store) (calls : List (Nat × ReplicaId × Verb τ))
    (outcome : Except Halt (Except Failure α) × Cluster) : Prop :=
  ∃ (served : List (Nat × ReplicaId × Verb τ)) (left : List (WaitingCall τ)) (c : Cluster),
    c.Serves k ids stores served ∧ c.late = [] ∧
    (served ++ left.map WaitingCall.planned).Perm calls ∧ (∀ call ∈ left, call.fate = none) ∧
    outcome.1 = .ok (q.execute {} (served.map (completionOf stores))).1 ∧
    ∀ a, outcome.1 = .ok (.ok a) → outcome.2 =
      { c with late := (q.mode.late left).foldl (fun late call => Cluster.enqueue call late) [] }

variable {k : Coordinator} {ids : List ReplicaId} {c : Cluster}

/-- **A request on a calm cluster.** -/
theorem run_calm (h : c.Calm k ids stores) (hplan : ∀ call ∈ q.plan, call.1 ∈ ids)
    (hnodup : (q.plan.map Prod.fst).Nodup) (hunits : q.start.tally.finished = true → q.plan = []) :
    q.Settles k ids stores q.calls (q.run.run.run c) := by
  have hids : ∀ call ∈ q.calls, call.2.1 ∈ ids := by
    intro call hcall
    have hmem : call.2.1 ∈ q.plan.map Prod.fst := by
      rw [← q.replicas_calls]
      exact List.mem_map_of_mem hcall
    obtain ⟨p, hp, heq⟩ := List.mem_map.1 hmem
    rw [← heq]
    exact hplan p hp
  have hdistinct : (q.calls.map (·.2.1)).Nodup := by
    rw [q.replicas_calls]
    exact hnodup
  have hstart : (q.fanout c).Serves k ids stores q.calls :=
    ⟨[], h.serves.frame rfl rfl rfl, h.late, rfl, .refl _, fun _ hcall => absurd hcall List.not_mem_nil⟩
  obtain ⟨s, hsteps, hends⟩ := q.run_endsInSteps c
  obtain ⟨served, hserves, hlate, hended, hperm, hfates⟩ :=
    hsteps.keeps (fun _ _ h hstep => h.step hids hdistinct hstep) hstart
  generalize q.run.run.run c = outcome at hends ⊢
  cases hends with
  | abandoned hdeadline => exact absurd hserves.deadline (hdeadline ▸ Option.some_ne_none _)
  | @concluded g progress hdrain hplanned hwaiting =>
    have hnone : s.planned = [] :=
      hplanned.elim id fun ⟨hfin, hall⟩ => hall.trans (calls_eq_nil (hunits hfin))
    rw [hnone, List.append_nil] at hperm
    refine ⟨served, s.waiting,
      { s.cluster with telemetry := q.observeEnd s.cluster.telemetry g progress },
      hserves.frame rfl rfl rfl, hlate, hperm, hfates, ?_, fun a ha => ?_⟩
    · unfold execute
      rw [← hended, hdrain]
    · cases progress with
      | answered => rw [hlate]
      | undecided | unreachable => cases ha

end QuorumRequest

end QuorumStore
