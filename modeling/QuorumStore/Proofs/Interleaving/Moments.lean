import QuorumStore.Proofs.Interleaving.Run

/-!
# When calls are applied

A call that has been applied once stays so. If it is applied by the end of a run but not at its
start, there is a moment of the run at which it reached its replica, and the answer is that of the
store at that moment.

* `applied_of_reaches`: what has been applied stays applied.
* `exists_moment`: the moment at which a call was applied.
* `not_applied_of_unserved`: a replica has applied no other call of an operation than its own.
* `parts_of_answered`, `moments_of_answered`: what is merged into an answer are answers of applied
  calls, from the moments at which they were applied.
-/

namespace QuorumStore.Interleaving

open Std Quorum

variable {c : Coordinator} {w w' : World} {i : Nat} {id : ReplicaId}
  {P : ∀ {α : Type}, Verb α → α → Prop}

theorem applied_of_step (hstep : Step c w w') (h : w.Applied c i id P) : w'.Applied c i id P := by
  rcases hstep.inversion with ⟨-, happlied⟩ | ⟨_, _, -, _, _, _, -, -, -, happlied⟩
  · exact (happlied i id P).2 h
  · exact (happlied i id P).2 (Or.inl h)

/-- **What has been applied stays applied.** -/
theorem applied_of_reaches (hreach : Reaches c w w') (h : w.Applied c i id P) :
    w'.Applied c i id P := by
  induction hreach with
  | refl => exact h
  | tail _ hstep ih => exact applied_of_step hstep ih

/-- **The moment at which a call was applied**: the replica answered it from the store it had then. -/
theorem exists_moment (hreach : Reaches c w w') (hnot : ¬ w.Applied c i id P)
    (h : w'.Applied c i id P) : ∃ w₁, Reaches c w w₁ ∧ Reaches c w₁ w' ∧
      ∃ (α : Type) (v : Verb α) (a : α), (Store.run v (w₁.stores id)).1 = .ok a ∧ P v a := by
  induction hreach with
  | refl => exact absurd h hnot
  | tail hreach hstep ih =>
    rcases hstep.effect with ⟨-, happlied⟩ | ⟨_, _, -, _, replica, verb, -, -, happlied⟩
    · obtain ⟨w₁, hto, hfrom, hanswer⟩ := ih (happlied i id P h)
      exact ⟨w₁, hto, hfrom.tail hstep, hanswer⟩
    · rcases happlied i id P h with hold | ⟨-, rfl, a, hok, hP⟩
      · obtain ⟨w₁, hto, hfrom, hanswer⟩ := ih hold
        exact ⟨w₁, hto, hfrom.tail hstep, hanswer⟩
      · -- this step has served the call, from the store before it
        exact ⟨_, hreach, .single hstep, _, verb, a, hok, hP⟩

/-- As long as the call of an operation to a replica has not reached it, the operation has had nothing
applied there: no replica is called twice. -/
theorem not_applied_of_unserved {op : Operation} {q : c.Routed op.α} {ticket : Nat}
    {verb : Verb op.α} (hq : c.routed? op.verb = some q) (hop : w.operations[i]? = some op)
    (hcall : (ticket, id, verb) ∈ c.calls op.verb)
    (hnew : ticket ∉ op.served.map Completion.ticket) : ¬ w.Applied c i id P := by
  intro h
  obtain ⟨d, hd, rfl, verb', a, hcall', -, -⟩ := (World.applied_iff hop).1 h
  -- the plan names each replica once, so the two calls have the same ticket
  obtain ⟨group, hget, -⟩ := (Coordinator.mem_calls_iff hq).1 hcall
  obtain ⟨group', hget', -⟩ := (Coordinator.mem_calls_iff hq).1 hcall'
  have hsame : d.ticket = ticket := by
    refine (List.getElem?_inj ?_ q.ids_nodup).1 ?_
    · rw [List.length_map]
      exact (List.getElem?_eq_some_iff.1 hget').1
    · rw [List.getElem?_map, List.getElem?_map, hget, hget']
      rfl
  exact hnew (hsame ▸ List.mem_map_of_mem hd)

/-- **What is merged into an answer are answers of applied calls**, each of them about a group of the
plan. -/
theorem parts_of_answered {α : Type} {v : Verb α} {q : c.Routed α} {a : α}
    (hsound : ∀ op ∈ w.operations, op.Sound c) (hq : c.routed? v = some q)
    (hans : w.Answered c i v a) : ∃ parts : List α,
      a = parts.foldl q.request.merge q.request.empty ∧ ∀ part ∈ parts, ∃ id group,
        (id, group) ∈ q.request.plan ∧ ∀ P : ∀ {α : Type}, Verb α → α → Prop,
          P (q.request.call group) part → w.Applied c i id P := by
  obtain ⟨q', served, seen, hq', hop, hexec⟩ := hans
  obtain rfl := Option.some.inj (hq.symm.trans hq')
  have hop_sound := hsound _ (List.mem_of_getElem? hop)
  have hplanned : ∀ d ∈ seen, ∃ group, q.request.plan[d.ticket]? = some (d.replica, group) ∧
      (d.ticket, d.replica, q.request.call group) ∈ c.calls v := by
    intro d hd
    obtain ⟨verb, hcall⟩ := hop_sound.planned d (List.mem_append_right _ hd)
    obtain ⟨group, hget, rfl⟩ := (Coordinator.mem_calls_iff hq).1 hcall
    exact ⟨group, hget, hcall⟩
  have harr : q.request.Arrived seen := by
    refine ⟨hop_sound.nodup, fun d hd => ?_⟩
    obtain ⟨group, hget, -⟩ := hplanned d hd
    exact (List.getElem?_eq_some_iff.1 hget).1
  obtain ⟨pre, post, rfl, hmerged, -⟩ := QuorumRequest.of_execute_ok harr {} hexec
  refine ⟨_, hmerged, fun part hpart => ?_⟩
  obtain ⟨d, hd, hres⟩ := List.mem_filterMap.1 hpart
  obtain ⟨group, hget, hcall⟩ := hplanned d (List.mem_append_left _ hd)
  refine ⟨d.replica, group, List.mem_of_getElem? hget, fun P hP => ?_⟩
  cases hresult : d.result with
  | error e => rw [hresult] at hres; cases hres
  | ok b =>
    rw [hresult] at hres
    obtain rfl := Option.some.inj hres
    have hserved := hop_sound.served_of_ok d (List.mem_append_left _ hd) (by rw [hresult]; rfl)
    exact ⟨_, hop, d, hserved, rfl, _, b, hcall, hresult, hP⟩

/-- **What is merged into an answer was answered while the operation ran**: by replicas of the plan,
each from the store it had at some moment after the operation was asked for. -/
theorem moments_of_answered {α : Type} {v : Verb α} {q : c.Routed α} {a : α}
    (hreach : Reaches c w w') (hlater : w.operations.length ≤ i)
    (hsound : ∀ op ∈ w'.operations, op.Sound c) (hq : c.routed? v = some q)
    (hans : w'.Answered c i v a) : ∃ parts : List α,
      a = parts.foldl q.request.merge q.request.empty ∧ ∀ part ∈ parts, ∃ id group w₁,
        (id, group) ∈ q.request.plan ∧ Reaches c w w₁ ∧ Reaches c w₁ w' ∧
          (Store.run (q.request.call group) (w₁.stores id)).1 = .ok part := by
  obtain ⟨parts, hmerged, hparts⟩ := parts_of_answered hsound hq hans
  refine ⟨parts, hmerged, fun part hpart => ?_⟩
  obtain ⟨id, group, hplan, happlied⟩ := hparts part hpart
  -- the property of being this call with this answer
  have hcall := happlied
    (fun {β : Type} (v' : Verb β) (b : β) => (⟨β, v', b⟩ : (β : Type) × Verb β × β) =
      ⟨α, q.request.call group, part⟩) rfl
  have hnot : ∀ P : ∀ {α : Type}, Verb α → α → Prop, ¬ w.Applied c i id P :=
    fun P hbefore => absurd hbefore.lt_length (Nat.not_lt.2 hlater)
  obtain ⟨w₁, hto, hfrom, β, v', b, hok, heq⟩ := exists_moment hreach (hnot _) hcall
  cases heq
  exact ⟨id, group, w₁, hplan, hto, hfrom, hok⟩

end QuorumStore.Interleaving
