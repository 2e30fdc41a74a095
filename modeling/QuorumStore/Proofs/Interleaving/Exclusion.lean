import QuorumStore.Proofs.Interleaving.ReadYourWrites

/-!
# Conditional writes exclude each other

A replica applies a conditional write only where none of its cells has a version, and has a version
of each of them afterwards. So it applies at most one of those that share a cell, and none once it
has a version of the cell. Two write quorums of more than half of the replicas each cannot avoid
each other.

* `Claims`: a conditional write of a cell.
* `claims_exclude`: a replica applies at most one.
* `putUnlessExists_exclusive`: at most one is answered, and none where enough replicas have a
  version.
-/

namespace QuorumStore.Interleaving

open Std

/-- The verb writes the cell unless it has a version. -/
def Claims (table : TableName) (cell : Cell) {α : Type} (v : Verb α) : Prop :=
  match v with
  | .putUnlessExists table' values => table' = table ∧ cell ∈ values
  | _ => False

variable {c : Coordinator} {w w₀ w₁ w₂ : World} {i j : Nat} {id : ReplicaId} {table : TableName}
  {cell : Cell} {α : Type} {v : Verb α} {s : Store} {a : α} {ts : Timestamp}

theorem writes_of_claims (h : Claims table cell v) : v.Writes table cell 0 := by
  cases v with
  | putUnlessExists table' values => exact ⟨h.1, h.2, rfl⟩
  | _ => exact h.elim

theorem not_holds_of_claims (h : Claims table cell v) (hok : (Store.run v s).1 = .ok a) :
    ¬ s.Holds table cell ts := by
  cases v with
  | putUnlessExists table' values =>
    obtain ⟨rfl, hcell⟩ := h
    exact Store.not_holds_of_run_putUnlessExists hcell hok
  | _ => exact h.elim

/-- A replica at which a conditional write has been applied has a version of each of its cells. -/
theorem holds_of_claimed (hempty : w₀.operations = []) (hreach : Reaches c w₀ w)
    (hspared : ∀ ts, Spared w table cell ts) (h : w.Applied c i id fun v _ => Claims table cell v) :
    (w.stores id).Holds table cell 0 := by
  obtain ⟨op, hop, d, hd, hid, verb, a, hcall, hres, hclaims⟩ := h
  exact holds_of_applied hempty hreach (hspared 0)
    ⟨op, hop, d, hd, hid, verb, a, hcall, hres, writes_of_claims hclaims⟩

/-- **A replica applies at most one conditional write of a cell.** -/
theorem claims_exclude (hempty : w₀.operations = []) (hreach : Reaches c w₀ w)
    (hspared : ∀ ts, Spared w table cell ts) (hij : i ≠ j)
    (hi : w.Applied c i id fun v _ => Claims table cell v) :
    ¬ w.Applied c j id fun v _ => Claims table cell v := by
  induction hreach generalizing i j with
  | refl =>
    have := hi.lt_length
    rw [hempty] at this
    exact absurd this (Nat.not_lt_zero i)
  | tail hreach hstep ih =>
    intro hj
    have hbefore : ∀ ts, Spared _ table cell ts := fun ts => spared_of_step hstep (hspared ts)
    rcases hstep.effect with ⟨-, happlied⟩ | ⟨k, op, hop, ticket, replica, verb, hcall, -, happlied⟩
    · exact ih hbefore hij (happlied i id _ hi) (happlied j id _ hj)
    · rcases happlied i id _ hi with hi' | ⟨hik, rfl, a, hok, hclaims⟩
      · rcases happlied j id _ hj with hj' | ⟨-, rfl, a, hok, hclaims⟩
        · exact ih hbefore hij hi' hj'
        · -- the replica had a version, so it has refused the later one
          exact not_holds_of_claims hclaims hok (holds_of_claimed hempty hreach hbefore hi')
      · rcases happlied j id _ hj with hj' | ⟨hjk, -⟩
        · exact not_holds_of_claims hclaims hok (holds_of_claimed hempty hreach hbefore hj')
        · -- one call is of one operation
          exact hij (hik.trans hjk.symm)

/-- An answered conditional write has been applied at a write quorum of the row's replicas. -/
theorem claimed_of_answered {values : ExtTreeMap Cell Bytes}
    (hsound : ∀ op ∈ w.operations, op.Sound c) (hcell : cell ∈ values)
    (hans : w.Answered c i (.putUnlessExists table values) ()) :
    ∃ A ⊆ (c.placement.replicasOf cell.row).toFinset, c.factors.write ≤ A.card ∧
      ∀ id ∈ A, w.Applied c i id fun v _ => Claims table cell v := by
  have hunit : cell ∈ (c.putUnlessExists table values).units := ExtTreeMap.mem_keys.2 hcell
  obtain ⟨parts, -, A, hsub, hcard, hA⟩ := applied_of_answered hsound rfl hans hunit
  refine ⟨A, hsub, hcard, fun id hid => ?_⟩
  obtain ⟨group, -, hgroup, part, -, happlied⟩ := hA id hid
  exact happlied (fun v _ => Claims table cell v) ⟨rfl, mem_mapOfList.2 hgroup⟩

/-- **Conditional writes exclude each other.** The row of the cell has at most as many replicas as
the replication factor says, and no operation is asked to remove a version of the cell. Where a
write quorum is more than half of the replicas, at most one of the conditional writes of the cell is
answered, however their calls interleave; and a conditional write of the cell that is asked for when
so many replicas have a version that the others make no quorum is never answered. -/
theorem putUnlessExists_exclusive
    (hplace : (c.placement.replicasOf cell.row).toFinset.card ≤ c.factors.replication)
    (hempty : w₀.operations = []) (hfirst : Reaches c w₀ w₁) (hthen : Reaches c w₁ w₂)
    (hspared : ∀ ts, Spared w₂ table cell ts) :
    (c.factors.replication < 2 * c.factors.write →
      ∀ i j (values values' : ExtTreeMap Cell Bytes), i ≠ j → cell ∈ values → cell ∈ values' →
        w₂.Answered c i (.putUnlessExists table values) () →
          ¬ w₂.Answered c j (.putUnlessExists table values') ()) ∧
    ∀ j (values : ExtTreeMap Cell Bytes) (H : Finset ReplicaId),
      H ⊆ (c.placement.replicasOf cell.row).toFinset →
      (∀ id ∈ H, ∃ ts, (w₁.stores id).Holds table cell ts) →
      c.factors.replication - c.factors.write + 1 ≤ H.card →
      w₁.operations.length ≤ j → cell ∈ values →
        ¬ w₂.Answered c j (.putUnlessExists table values) () := by
  have hreach := hfirst.trans hthen
  have hsound := sound_of_reaches hempty hreach
  have hle := c.factors.write_le
  refine ⟨?_, ?_⟩
  · -- two write quorums have a replica in common, which has applied both
    intro hquorum i j values values' hij hcell hcell' hi hj
    obtain ⟨A, hsubA, hcardA, hA⟩ := claimed_of_answered hsound hcell hi
    obtain ⟨B, hsubB, hcardB, hB⟩ := claimed_of_answered hsound hcell' hj
    obtain ⟨id, hidA, hidB⟩ := exists_common hplace hsubA hsubB (by omega)
    exact claims_exclude hempty hreach hspared hij (hA id hidA) (hB id hidB)
  · -- a write quorum has a replica in common with those that had a version
    intro j values H hsubH hH hcardH hlater hcell hj
    obtain ⟨A, hsubA, hcardA, hA⟩ := claimed_of_answered hsound hcell hj
    obtain ⟨id, hidA, hidH⟩ := exists_common hplace hsubA hsubH (by omega)
    obtain ⟨ts, hts⟩ := hH id hidH
    refine not_applied_later hthen (hspared ts) hts hlater ?_ (hA id hidA)
    intro s _ v a hs hok hclaims
    exact not_holds_of_claims hclaims hok hs

section Trio

/-- A conditional write of one cell. -/
def trioClaim : Verb Unit := .putUnlessExists "t" ((∅ : ExtTreeMap Cell Bytes).insert ⟨[1], [2]⟩ [7])

/-- What each replica is asked to write. -/
def trioClaimCall : Verb Unit :=
  .putUnlessExists "t" (ExtTreeMap.ofList [(⟨[1], [2]⟩, [7])] compare)

/-- The first of two conditional writes reaches the replicas `a` and `b` and is answered; the second
has reached `c` before them. Neither it nor one that is asked for later is answered. -/
theorem putUnlessExists_trio : ∃ w₁, Reaches trio trioStart w₁ ∧ w₁.Answered trio 0 trioClaim () ∧
    ¬ w₁.Answered trio 1 trioClaim () ∧
    ∃ w₂, Reaches trio w₁ w₂ ∧ w₂.operations.length = 3 ∧ ¬ w₂.Answered trio 2 trioClaim () := by
  have hcalls : ∀ call ∈ [(0, "a", trioClaimCall), (1, "b", trioClaimCall), (2, "c", trioClaimCall)],
      call ∈ trio.calls trioClaim := fun call h => h
  have hrun : ∃ w₁, Reaches trio trioStart w₁ ∧ w₁.Answered trio 0 trioClaim () ∧
      (∀ ts, Spared w₁ "t" ⟨[1], [2]⟩ ts) ∧ w₁.operations.length ≤ 2 ∧
      (w₁.stores "a").Holds "t" ⟨[1], [2]⟩ 0 ∧ (w₁.stores "b").Holds "t" ⟨[1], [2]⟩ 0 ∧
      ∃ w₂, Reaches trio w₁ w₂ ∧ w₂.operations.length = 3 ∧ ∀ ts, Spared w₂ "t" ⟨[1], [2]⟩ ts := by
    refine ⟨_, .tail (.tail (.tail (.tail (.tail (.tail (.tail .refl
      (.ask trioClaim)) (.ask trioClaim))
      (.serve 1 _ 2 "c" trioClaimCall rfl (hcalls _ (.tail _ (.tail _ (.head _)))) (by decide)))
      (.serve 0 _ 0 "a" trioClaimCall rfl (hcalls _ (.head _)) (by decide)))
      (.serve 0 _ 1 "b" trioClaimCall rfl (hcalls _ (.tail _ (.head _))) (by decide)))
      (.learn 0 _ _ rfl (.head _) (by decide)))
      (.learn 0 _ _ rfl (.tail _ (.head _)) (by decide)), ⟨_, _, _, rfl, rfl, rfl⟩, ?_⟩
    refine ⟨fun ts => ?_, by decide, rfl, rfl, _, .tail .refl (.ask trioClaim), rfl, fun ts => ?_⟩
    · exact List.forall_mem_cons.2 ⟨trivial, List.forall_mem_singleton.2 trivial⟩
    · exact List.forall_mem_cons.2
        ⟨trivial, List.forall_mem_cons.2 ⟨trivial, List.forall_mem_singleton.2 trivial⟩⟩
  obtain ⟨w₁, hfirst, hans, hspared₁, hlater, ha, hb, w₂, hthen, hlength, hspared₂⟩ := hrun
  have hplace : (trio.placement.replicasOf [1]).toFinset.card ≤ trio.factors.replication := by decide
  have hcell : (⟨[1], [2]⟩ : Cell) ∈ (∅ : ExtTreeMap Cell Bytes).insert ⟨[1], [2]⟩ [7] := by decide
  refine ⟨w₁, hfirst, hans, ?_, w₂, hthen, hlength, ?_⟩
  · have hstart : Reaches trio trioStart trioStart := .refl
    exact (putUnlessExists_exclusive hplace rfl hstart hfirst hspared₁).1 (by decide) 0 1 _ _
      (by decide) hcell hcell hans
  · refine (putUnlessExists_exclusive hplace rfl hfirst hthen hspared₂).2 2 _ {"a", "b"} (by decide)
      (fun id hid => ?_) (by decide) hlater hcell
    rcases Finset.mem_insert.1 hid with rfl | hid
    · exact ⟨0, ha⟩
    · rw [Finset.mem_singleton.1 hid]
      exact ⟨0, hb⟩

end Trio

end QuorumStore.Interleaving
