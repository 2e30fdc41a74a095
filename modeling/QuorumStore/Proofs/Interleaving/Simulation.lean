import QuorumStore.Proofs.Interleaving.Underway

/-!
# Requests in virtual time are interleavings

Whatever the coordinator of a cluster is asked for, what happens in the cluster until the answer is
one of the ways in which calls can interleave.

* `Ended`: what holds once a request has ended.
* `simulate_request`: a request to a quorum.
* `simulate_applyToAll`, `simulate_firstAnswer`: replicas asked one after the other.
* `simulate_run`: whatever the coordinator is asked for.
-/

namespace QuorumStore

open Std Quorum

namespace Interleaving

variable {α : Type} {k : Coordinator} {w w' : World} {c c' : Cluster} {i : Nat} {v : Verb α}
  {seen : List (Completion α)} {calls : List (Nat × ReplicaId × Verb α)} {q : k.Routed α}

/-- What a request leaves when it ends, answered or abandoned: the cluster mirrors a world. There
the answer of a request to a quorum is the verdict on what the coordinator has learnt. -/
structure Ended (k : Coordinator) (i : Nat) (v : Verb α) (w : World)
    (outcome : Except Halt (Except Failure α) × Cluster) : Prop where
  mirrors : Mirrors k (i + 1) w outcome.2
  length : w.operations.length = i + 1
  answer : ∀ result, outcome.1 = .ok result → ∃ served seen,
    w.operations[i]? = some { verb := v, served, seen } ∧
      ∀ q, k.routed? v = some q → (q.request.execute {} seen).1 = result

theorem Ended.reaches {outcome : Except Halt (Except Failure α) × Cluster}
    (hreach : Reaches k w w') (h : ∃ w'', Reaches k w' w'' ∧ Ended k i v w'' outcome) :
    ∃ w'', Reaches k w w'' ∧ Ended k i v w'' outcome := by
  obtain ⟨w'', hreach', hended⟩ := h
  exact ⟨w'', hreach.trans hreach', hended⟩

theorem Ended.abandoned (hm : Mirrors k (i + 1) w c) (hlength : w.operations.length = i + 1) :
    Ended k i v w (.error .abandoned, c) :=
  ⟨hm, hlength, fun _ hresult => nomatch hresult⟩

/-- **A request to a quorum**, none of whose calls has started, comes to such an end. -/
theorem simulate_request (hq : k.routed? v = some q) (h : Underway k w c i v [] (k.calls v)) :
    ∃ w', Reaches k w w' ∧ Ended k i v w' (q.request.run.run.run c) := by
  -- that the request is counted changes nothing that is mirrored
  have hstart : Carried k w i v (q.request.fanout c) := by
    rw [Coordinator.calls_eq hq] at h
    exact h.frame rfl rfl
  obtain ⟨s, hsteps, hends⟩ := q.request.run_endsInSteps c
  obtain ⟨w', hreach, hcarried⟩ := hstart.steps hsteps
  -- the calls that have arrived, and the others
  have hnodup := List.map_append ▸ hcarried.nodup
  have hwaiting : Underway k w' s.cluster i v s.ended (s.waiting.map WaitingCall.planned) :=
    hcarried.of_subset (fun _ => List.mem_append_left _) (List.nodup_append.1 hnodup).1
  have hplanned : Underway k w' s.cluster i v s.ended s.planned :=
    hcarried.of_subset (fun _ => List.mem_append_right _) (List.nodup_append.1 hnodup).2.1
  refine Ended.reaches hreach ?_
  generalize q.request.run.run.run c = outcome at hends
  cases hends with
  | abandoned hdeadline hleft =>
    obtain ⟨-, rfl⟩ | ⟨-, rfl⟩ := hleft
    · obtain ⟨w'', hreach', hmirrors, hlength⟩ := hwaiting.abandon (leaves_late _ _) _
      exact ⟨w'', hreach', .abandoned hmirrors hlength⟩
    · obtain ⟨w'', hreach', hmirrors, hlength⟩ := hplanned.abandon (leaves_queued _ _ _) _
      exact ⟨w'', hreach', .abandoned hmirrors hlength⟩
  | @concluded g progress hdrain =>
    obtain ⟨served, hop, -⟩ := hcarried.operation
    refine ⟨w', .refl, ?_, hcarried.length, fun result hresult => ⟨served, s.ended, hop, ?_⟩⟩
    · cases progress with
      | answered =>
        have hmirrors := hwaiting.leave (leaves_late q.request.mode s.waiting)
        exact hmirrors.frame hmirrors.stores rfl fun _ _ => rfl
      | undecided | unreachable =>
        have hmirrors := hwaiting.leave (Or.inr rfl)
        exact hmirrors.frame hmirrors.stores rfl fun _ _ => rfl
    · intro q' hq'
      obtain rfl := Option.some.inj (hq.symm.trans hq')
      rw [← Except.ok.inj hresult]
      unfold QuorumRequest.execute
      rw [hdrain]

section InTurn

/-- A replica is asked, as long as it takes. -/
theorem Underway.callReplica {ticket : Nat} {id : ReplicaId} {verb : Verb α}
    (h : Underway k w c i v seen ((ticket, id, verb) :: calls)) : ∃ w' c', Reaches k w w' ∧
      ((∃ d : Completion α, (Run.callReplica id verb).run.run c = (.ok d.result, c') ∧
          Underway k w' c' i v (seen ++ [d]) calls) ∨
        (Run.callReplica id verb).run.run c = (.error .abandoned, c') ∧ Mirrors k (i + 1) w' c' ∧
          w'.operations.length = i + 1) := by
  rcases Run.callReplica_cases c id verb with ⟨result, c', hrun, hcalled⟩ | ⟨deadline, -, hrun⟩
  · obtain ⟨w₁, hreach, h₁⟩ := h.turns (c.turns_arrived id)
    cases hcalled with
    | refused =>
      obtain ⟨w₂, hreach₂, h₂⟩ := h₁.fail _
      exact ⟨w₂, _, hreach.trans hreach₂, Or.inl ⟨_, hrun, h₂⟩⟩
    | reached hopen hcall =>
      obtain ⟨w₂, hreach₂, h₂⟩ := h₁.answer
      rw [hcall] at h₂
      exact ⟨w₂, _, hreach.trans hreach₂, Or.inl ⟨_, hrun, h₂⟩⟩
  · -- a caller that goes leaves nothing behind
    obtain ⟨w', hreach, hmirrors⟩ := h.abandon (Or.inr rfl) deadline
    exact ⟨w', _, hreach, Or.inr ⟨hrun, hmirrors⟩⟩

/-- What needs no quorum ends without a claim about its answer. -/
theorem Underway.ended (hq : k.routed? v = none) (h : Underway k w c i v seen calls)
    (result : Except Failure α) : Ended k i v w (.ok result, c) := by
  obtain ⟨served, hop, -⟩ := h.operation
  have hmirrors : Mirrors k (i + 1) w c := h.leave (Or.inr rfl)
  refine ⟨hmirrors, h.length, fun _ _ => ⟨served, seen, hop, fun q hq' => ?_⟩⟩
  rw [hq] at hq'
  cases hq'

/-- The calls to replicas one after the other, numbered from `n`. -/
def inTurn (v : Verb α) (n : Nat) (ids : List ReplicaId) : List (Nat × ReplicaId × Verb α) :=
  (ids.zipIdx n).map fun (id, ticket) => (ticket, id, v)

/-- **A side effect on one replica after the other** comes to such an end. -/
theorem simulate_applyToAll {v : Verb Unit} {seen : List (Completion Unit)}
    (hq : k.routed? v = none) (failed : ReplicaId → Failure → LogEvent) {n : Nat}
    {ids : List ReplicaId} (h : Underway k w c i v seen (inTurn v n ids)) :
    ∃ w', Reaches k w w' ∧ Ended k i v w'
      ((applyToAll (Run.callReplica · v) (fun id e => Run.note (failed id e)) ids).run.run c) := by
  induction ids generalizing w c seen n with
  | nil => exact ⟨w, .refl, h.ended hq _⟩
  | cons id ids ih =>
    unfold applyToAll
    obtain ⟨w₁, c₁, hreach, ⟨d, hrun, h₁⟩ | ⟨hrun, hmirrors, hlength⟩⟩ := h.callReplica
    · rw [Run.run_bind_ok hrun]
      split
      · exact Ended.reaches hreach (ih h₁)
      · rename_i e _
        let noted : Cluster := { c₁ with telemetry := c₁.telemetry.note [failed id e] }
        have hnoted : Underway k w₁ noted i v _ _ := h₁.frame rfl rfl
        exact ⟨w₁, hreach, hnoted.ended hq _⟩
    · rw [Run.run_bind_error hrun]
      exact ⟨w₁, hreach, .abandoned hmirrors hlength⟩

/-- **A question to one replica after the other** comes to such an end. -/
theorem simulate_firstAnswer (hq : k.routed? v = none) (failed : ReplicaId → Failure → LogEvent)
    {last : Failure} {n : Nat} {ids : List ReplicaId} (h : Underway k w c i v seen (inTurn v n ids)) :
    ∃ w', Reaches k w w' ∧ Ended k i v w'
      ((firstAnswer (Run.callReplica · v) (fun id e => Run.note (failed id e)) last ids).run.run
        c) := by
  induction ids generalizing w c seen n last with
  | nil => exact ⟨w, .refl, h.ended hq _⟩
  | cons id ids ih =>
    unfold firstAnswer
    obtain ⟨w₁, c₁, hreach, ⟨d, hrun, h₁⟩ | ⟨hrun, hmirrors, hlength⟩⟩ := h.callReplica
    · rw [Run.run_bind_ok hrun]
      split
      · exact ⟨w₁, hreach, h₁.ended hq _⟩
      · exact Ended.reaches hreach (ih (h₁.frame rfl rfl))
    · rw [Run.run_bind_error hrun]
      exact ⟨w₁, hreach, .abandoned hmirrors hlength⟩

theorem calls_eq_inTurn (hq : k.routed? v = none) : k.calls v = inTurn v 0 k.placement.replicas := by
  unfold Coordinator.calls
  rw [hq]
  rfl

theorem simulate_broadcast {v : Verb Unit} (hq : k.routed? v = none)
    (h : Underway k w c i v [] (k.calls v)) :
    ∃ w', Reaches k w w' ∧ Ended k i v w' ((k.broadcast v).run.run c) := by
  rw [calls_eq_inTurn hq] at h
  exact simulate_applyToAll hq (failedInTurn v.operation "broadcast failed") (h.frame rfl rfl)

theorem simulate_fallback (hq : k.routed? v = none) (h : Underway k w c i v [] (k.calls v)) :
    ∃ w', Reaches k w w' ∧ Ended k i v w' ((k.fallback v).run.run c) := by
  rw [calls_eq_inTurn hq] at h
  exact simulate_firstAnswer hq
    (failedInTurn v.operation "fallback read failed, trying next replica") (h.frame rfl rfl)

end InTurn

/-- The calls of a verb have different numbers. -/
theorem nodup_calls (k : Coordinator) (v : Verb α) : ((k.calls v).map Prod.fst).Nodup := by
  cases hq : k.routed? v with
  | none =>
    have hnumbers : (k.calls v).map Prod.fst = k.placement.replicas.zipIdx.map Prod.snd := by
      rw [calls_eq_inTurn hq]
      exact List.map_map
    rw [hnumbers, List.zipIdx_map_snd]
    exact List.nodup_range'
  | some q =>
    have hnumbers : (k.calls v).map Prod.fst = q.request.plan.zipIdx.map Prod.snd := by
      unfold Coordinator.calls
      rw [hq]
      exact List.map_map
    rw [hnumbers, List.zipIdx_map_snd]
    exact List.nodup_range'

/-- The coordinator is asked for something, and none of its calls has started. -/
theorem Underway.ask (v : Verb α) (hm : Mirrors k w.operations.length w c) :
    ∃ w', Reaches k w w' ∧ Underway k w' c w.operations.length v [] (k.calls v) := by
  refine ⟨_, .single (.ask v), ?_, ?_, ⟨[], ?_, fun _ _ => List.not_mem_nil⟩, fun _ hcall => hcall,
    nodup_calls k v, fun _ _ => List.not_mem_nil⟩
  · exact hm.frame hm.stores rfl fun j hj => List.getElem?_append_left hj
  · rw [List.length_append, List.length_singleton]
  · exact List.getElem?_concat_length

/-- **What a coordinator does on a cluster is one of the ways in which calls can interleave.** The
cluster goes on to mirror a world that can be reached, and there the answer of a request to a quorum
is the verdict on what the coordinator has learnt. -/
theorem simulate_run (v : Verb α) (hm : Mirrors k w.operations.length w c) :
    ∃ w', Reaches k w w' ∧ Ended k w.operations.length v w' ((k.run v).run.run c) := by
  obtain ⟨w', hask, h⟩ := Underway.ask v hm
  refine Ended.reaches hask ?_
  cases hq : k.routed? v with
  | some q =>
    rw [Coordinator.run_eq hq]
    exact simulate_request hq h
  | none =>
    cases v with
    | createTable | dropTable | truncateTable | putMetadata | compact | prepareFresh | close
    | teardown => exact simulate_broadcast hq h
    | tableNames | getMetadata | allMetadata => exact simulate_fallback hq h
    | _ => cases hq

/-- The same for all that the coordinator is asked for, one thing after the other. -/
theorem simulate_runs (vs : List ((α : Type) × Verb α)) (hm : Mirrors k w.operations.length w c) :
    ∃ w', Reaches k w w' ∧ w'.operations.length = w.operations.length + vs.length ∧
      Mirrors k w'.operations.length w' (vs.foldl (fun c v => ((k.run v.2).run.run c).2) c) := by
  induction vs generalizing w c with
  | nil => exact ⟨w, .refl, rfl, hm⟩
  | cons v vs ih =>
    obtain ⟨w₁, hreach, hended⟩ := simulate_run v.2 hm
    have hm₁ := hended.mirrors
    rw [← hended.length] at hm₁
    obtain ⟨w₂, hreach₂, hlength, hm₂⟩ := ih hm₁
    refine ⟨w₂, hreach.trans hreach₂, ?_, hm₂⟩
    rw [hlength, hended.length, List.length_cons, Nat.add_assoc, Nat.add_comm 1]

/-- Before the coordinator is asked for anything a cluster mirrors a world without operations. -/
theorem mirrors_start (k : Coordinator) (hlate : c.late = []) :
    ∃ w, w.operations = [] ∧ Mirrors k w.operations.length w c := by
  let stores : ReplicaId → Store := fun id => (c.replicas[id]?.map Replica.store).getD {}
  refine ⟨⟨stores, []⟩, rfl, fun id r hr => ?_, [], ?_, fun _ hkey => absurd hkey List.not_mem_nil⟩
  · show (c.replicas[id]?.map Replica.store).getD {} = r.store
    rw [hr]
    rfl
  · rw [hlate]
    exact ⟨List.nodup_nil, .nil⟩

/-- An answer of a request to a quorum is an answer in the world. -/
theorem Ended.answered {outcome : Except Halt (Except Failure α) × Cluster} {a : α}
    (h : Ended k i v w outcome) (hq : k.routed? v = some q) (hans : outcome.1 = .ok (.ok a)) :
    w.Answered k i v a := by
  obtain ⟨served, seen, hop, hverdict⟩ := h.answer _ hans
  exact ⟨q, served, seen, hq, hop, hverdict q hq⟩

end Interleaving

end QuorumStore
