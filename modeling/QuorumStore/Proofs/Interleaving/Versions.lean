import QuorumStore.Proofs.Interleaving.Moments

/-!
# Versions during a run

As long as nobody asks to remove a version, a replica that has it keeps it, whatever else runs.

* `Spared`: no operation so far removes the version.
* `holds_of_reaches`: a version stays where it is.
* `holds_of_applied`: a replica at which a write has been applied has what was written.
* `not_applied_later`: what no replica with a version does is not done by one after it has got the
  version.
-/

namespace QuorumStore.Interleaving

open Std

/-- No operation so far removes the version. -/
def Spared (w : World) (table : TableName) (cell : Cell) (ts : Timestamp) : Prop :=
  ∀ op ∈ w.operations, op.verb.Spares table cell ts

variable {c : Coordinator} {w w' w₀ : World} {i : Nat} {id : ReplicaId} {table : TableName}
  {cell : Cell} {ts : Timestamp}

theorem spared_of_step (hstep : Step c w w') (h : Spared w' table cell ts) :
    Spared w table cell ts :=
  hstep.forall_operations (Q := fun v => v.Spares table cell ts) h

theorem spared_of_reaches (h : Reaches c w w') (hspared : Spared w' table cell ts) :
    Spared w table cell ts := by
  induction h with
  | refl => exact hspared
  | tail _ hstep ih => exact ih (spared_of_step hstep hspared)

/-- A store that has answered a sparing call, or not, keeps the version. -/
theorem holds_update {op : Operation} {ticket : Nat} {replica : ReplicaId} {verb : Verb op.α}
    (hcall : (ticket, replica, verb) ∈ c.calls op.verb) (hspares : op.verb.Spares table cell ts)
    (h : (w.stores id).Holds table cell ts) :
    (Function.update w.stores replica (Store.run verb (w.stores replica)).2 id).Holds table cell ts := by
  by_cases hid : id = replica
  · subst hid
    rw [Function.update_self]
    exact Store.holds_run_of_spares (Coordinator.spares_of_mem_calls hspares hcall) h
  · rw [Function.update_of_ne hid]
    exact h

theorem holds_of_step (hstep : Step c w w') (hspared : Spared w table cell ts)
    (h : (w.stores id).Holds table cell ts) : (w'.stores id).Holds table cell ts := by
  rcases hstep.effect with ⟨hstores, -⟩ | ⟨j, op, hop, ticket, replica, verb, hcall, hstores, -⟩
  · rw [hstores]
    exact h
  · rw [hstores]
    exact holds_update hcall (hspared op (List.mem_of_getElem? hop)) h

/-- **A version stays where it is.** -/
theorem holds_of_reaches (hreach : Reaches c w w') (hspared : Spared w' table cell ts)
    (h : (w.stores id).Holds table cell ts) : (w'.stores id).Holds table cell ts := by
  induction hreach with
  | refl => exact h
  | tail _ hstep ih =>
    have hbefore := spared_of_step hstep hspared
    exact holds_of_step hstep hbefore (ih hbefore)

/-- **A replica at which a write has been applied has what was written.** -/
theorem holds_of_applied (hempty : w₀.operations = []) (hreach : Reaches c w₀ w)
    (hspared : Spared w table cell ts) (h : w.Applied c i id fun v _ => v.Writes table cell ts) :
    (w.stores id).Holds table cell ts := by
  induction hreach with
  | refl =>
    have := h.lt_length
    rw [hempty] at this
    exact absurd this (Nat.not_lt_zero i)
  | tail _ hstep ih =>
    have hbefore := spared_of_step hstep hspared
    rcases hstep.effect with ⟨hstores, happlied⟩ |
      ⟨j, op, hop, ticket, replica, verb, hcall, hstores, happlied⟩
    · rw [hstores]
      exact ih hbefore (happlied i id _ h)
    · rw [hstores]
      rcases happlied i id _ h with hold | ⟨-, rfl, a, hok, hwrites⟩
      · exact holds_update hcall (hbefore op (List.mem_of_getElem? hop)) (ih hbefore hold)
      · -- the write has just been applied
        rw [Function.update_self]
        exact Store.holds_run_of_writes hwrites hok

/-- **What no replica with a version does is not done by one after it has got the version.** -/
theorem not_applied_later {P : ∀ {α : Type}, Verb α → α → Prop} (hreach : Reaches c w w')
    (hspared : Spared w' table cell ts) (hholds : (w.stores id).Holds table cell ts)
    (hlater : w.operations.length ≤ i)
    (hP : ∀ (s : Store) {α : Type} (v : Verb α) (a : α), s.Holds table cell ts →
      (Store.run v s).1 = .ok a → ¬ P v a) : ¬ w'.Applied c i id P := by
  intro h
  have hnot : ¬ w.Applied c i id P := fun hbefore => absurd hbefore.lt_length (Nat.not_lt.2 hlater)
  obtain ⟨w₁, hto, hfrom, _, v, a, hok, hPa⟩ := exists_moment hreach hnot h
  exact hP _ v a (holds_of_reaches hto (spared_of_reaches hfrom hspared) hholds) hok hPa

end QuorumStore.Interleaving
