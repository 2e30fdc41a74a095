import QuorumStore.Cluster.Services
import QuorumStore.Proofs.Cluster.Requests

/-!
# Replicas asked one after the other on a calm cluster

* `Cluster.Calm.call`: a call reaches its store.
* `Run.callReplica_calm`: a replica is asked, and answers however long it takes.
* `Run.applyToAll_calm`: **a side effect that succeeds has been done on every replica.**
-/

namespace QuorumStore

open Std Quorum Std.Do

variable {τ : Type} {k : Coordinator} {ids : List ReplicaId} {stores : ReplicaId → Store}
  {c c' : Cluster} {id : ReplicaId}

theorem Cluster.Calm.call (h : c.Calm k ids stores) (hid : id ∈ ids) (v : Verb τ) :
    (c.call id v).1 = (Store.run v (stores id)).1 ∧
      (c.call id v).2.Calm k ids (Function.update stores id (Store.run v (stores id)).2) := by
  obtain ⟨hresult, hserves, hlate⟩ :=
    h.serves.call 0 v hid List.not_mem_nil
  obtain ⟨stores', hreached, hcalm⟩ := hserves.calm (hlate.trans h.late)
  have hstores : stores' = Function.update stores id (Store.run v (stores id)).2 := by
    funext other
    by_cases heq : other = id
    · subst heq
      rw [Function.update_self]
      exact hreached.called _ (List.mem_singleton_self _)
    · rw [Function.update_of_ne heq]
      exact hreached.spared other (by simpa using heq)
  rw [hstores] at hcalm
  exact ⟨hresult, hcalm⟩

namespace Run

/-- A replica is asked, as long as it takes. -/
theorem callReplica_calm (h : c.Calm k ids stores) (hid : id ∈ ids) (v : Verb τ) : ∃ c',
    (callReplica id v).run.run c = (.ok (Store.run v (stores id)).1, c') ∧
      c'.Calm k ids (Function.update stores id (Store.run v (stores id)).2) := by
  rcases callReplica_cases c id v with ⟨result, c', hrun, hcalled⟩ | ⟨deadline, hdeadline, -⟩
  · cases hcalled with
    | refused hrefusal =>
      rw [h.refusal hid] at hrefusal
      cases hrefusal
    | reached hopen hcall =>
      obtain ⟨hresult, hcalm⟩ := (h.turns (c.turns_arrived id)).call hid v
      rw [hcall] at hresult hcalm
      exact ⟨c', hresult ▸ hrun, hcalm⟩
  · rw [h.deadline] at hdeadline
    cases hdeadline

/-- **A side effect that succeeds** has succeeded on every replica that was asked, and on no other. -/
theorem applyToAll_calm {v : Verb Unit} {failed : ReplicaId → Failure → Run Unit}
    {asked : List ReplicaId} (h : c.Calm k ids stores) (hasked : ∀ id ∈ asked, id ∈ ids)
    (hnodup : asked.Nodup)
    (hok : (applyToAll (callReplica · v) failed asked).run.run c = (.ok (.ok ()), c')) :
    ∃ stores', c'.Calm k ids stores' ∧
      (∀ id ∈ asked, (Store.run v (stores id)).1 = .ok () ∧
        stores' id = (Store.run v (stores id)).2) ∧
      ∀ id, id ∉ asked → stores' id = stores id := by
  induction asked generalizing c stores with
  | nil =>
    cases hok
    exact ⟨stores, h, fun _ hid => absurd hid List.not_mem_nil, fun _ _ => rfl⟩
  | cons first asked ih =>
    obtain ⟨hnew, hnodup⟩ := List.nodup_cons.1 hnodup
    obtain ⟨c₁, hcall, h₁⟩ := callReplica_calm h (hasked first List.mem_cons_self) v
    unfold applyToAll at hok
    rw [run_bind_ok hcall] at hok
    cases hresult : (Store.run v (stores first)).1 with
    | error e =>
      -- a failure ends it
      rw [hresult] at hok
      dsimp only at hok
      cases hnoted : (failed first e).run.run c₁ with
      | mk noted c₂ =>
        cases noted with
        | error e' =>
          rw [run_bind_error hnoted] at hok
          cases hok
        | ok _ =>
          rw [run_bind_ok hnoted] at hok
          cases hok
    | ok _ =>
      rw [hresult] at hok
      obtain ⟨stores', hcalm, hdone, hspared⟩ :=
        ih h₁ (fun other hother => hasked other (List.mem_cons_of_mem _ hother)) hnodup hok
      refine ⟨stores', hcalm, fun id hid => ?_, fun id hid => ?_⟩
      · rcases List.mem_cons.1 hid with rfl | hrest
        · rw [hspared id hnew, Function.update_self]
          exact ⟨hresult, rfl⟩
        · have hne : id ≠ first := fun heq => hnew (heq ▸ hrest)
          have hcalled := hdone id hrest
          rw [Function.update_of_ne hne] at hcalled
          exact hcalled
      · rw [List.mem_cons, not_or] at hid
        rw [hspared id hid.2, Function.update_of_ne hid.1]

end Run

end QuorumStore
