import Mathlib.Data.Finset.Card
import QuorumStore.Proofs.Grouping
import QuorumStore.Proofs.Quorum.Verdict

/-!
# The replicas behind an answer

An answered request has, for each of its units, a quorum of replicas whose calls succeeded. Two
quorums of one row that are large enough together have a replica in common.

* `of_execute_ok`: what an answer was merged from.
* `QuorumRequest.backers`: the replicas whose calls succeeded for a unit.
* `card_backers`: there are as many of them as good answers.
* `backers_subset`: they are replicas of the unit's row.
* `exists_common`: two large sets of replicas of a row meet.
-/

namespace QuorumStore

open Std Quorum

namespace QuorumRequest

section Answer

variable {κ υ τ α : Type} [Ord υ] [TransOrd υ] [LawfulEqOrd υ] {r : QuorumRequest κ υ τ α}
  {cs : List (Completion τ)} {a : α}

/-- **What an answer was merged from**: the first of the finished calls, up to where every unit has
its quorum of good answers. -/
theorem of_execute_ok (harr : r.Arrived cs) (t : Telemetry) (h : (r.execute t cs).1 = .ok a) :
    ∃ pre post, cs = pre ++ post ∧
      a = (pre.filterMap fun c => c.result.toOption).foldl r.merge r.empty ∧
      ∀ u ∈ r.units, r.policy.success ≤ r.good pre u := by
  have hstop := drain_stop (r := r) r.follows_start.coherent r.start_failed cs
  have hout : (r.execute t cs).1 = r.outcome (r.drain r.start cs).1 (r.drain r.start cs).2.2 := rfl
  rw [hout] at h
  generalize (r.drain r.start cs).1 = g at hstop h
  generalize (r.drain r.start cs).2.2 = progress at hstop h
  cases hstop with
  | answered pre post hcs hfinished hgood =>
    subst hcs
    have hpre := follows_takeAll harr.of_append
    refine ⟨pre, post, rfl, ?_, hpre.good_of_answered hfinished hgood⟩
    rw [← hpre.answer]
    exact (Except.ok.inj h).symm
  | unreachable => cases h
  | undecided => cases h

end Answer

section Backers

variable {κ υ τ α : Type} [Ord υ] {r : QuorumRequest κ υ τ α} {cs : List (Completion τ)} {u : υ}

/-- Each finished call is one of the plan, at the replica the plan has for it. -/
def Genuine (r : QuorumRequest κ υ τ α) (cs : List (Completion τ)) : Prop :=
  ∀ d ∈ cs, ∃ keys, r.plan[d.ticket]? = some (d.replica, keys)

/-- The replicas whose calls succeeded for a unit. -/
def backers (r : QuorumRequest κ υ τ α) (cs : List (Completion τ)) (u : υ) : Finset ReplicaId :=
  ((cs.filter fun d => r.covers u d.ticket && d.result.isOk).map Completion.replica).toFinset

theorem mem_backers {id : ReplicaId} : id ∈ r.backers cs u ↔
    ∃ d ∈ cs, d.replica = id ∧ r.covers u d.ticket = true ∧ d.result.isOk = true := by
  unfold backers
  simp only [List.mem_toFinset, List.mem_map, List.mem_filter, Bool.and_eq_true]
  constructor
  · rintro ⟨d, ⟨hd, hcov, hok⟩, hid⟩
    exact ⟨d, hd, hid, hcov, hok⟩
  · rintro ⟨d, hd, hid, hcov, hok⟩
    exact ⟨d, ⟨hd, hcov, hok⟩, hid⟩

/-- **There are as many replicas behind a unit as good answers**: no replica is called twice. -/
theorem card_backers (hids : (r.plan.map Prod.fst).Nodup) (hnodup : (cs.map Completion.ticket).Nodup)
    (hgen : r.Genuine cs) (u : υ) : (r.backers cs u).card = r.good cs u := by
  have hsub : (cs.filter fun d => r.covers u d.ticket && d.result.isOk).Sublist cs :=
    List.filter_sublist
  have hdistinct : ((cs.filter fun d => r.covers u d.ticket && d.result.isOk).map
      Completion.replica).Nodup := by
    have hpair := (List.pairwise_map.1 hnodup).sublist hsub
    rw [List.Nodup, List.pairwise_map]
    refine hpair.imp_of_mem fun {d e} hd he hne heq => hne ?_
    obtain ⟨keys, hkeys⟩ := hgen d (hsub.subset hd)
    obtain ⟨keys', hkeys'⟩ := hgen e (hsub.subset he)
    refine (List.getElem?_inj ?_ hids).1 ?_
    · rw [List.length_map]
      exact (List.getElem?_eq_some_iff.1 hkeys).1
    · rw [List.getElem?_map, List.getElem?_map, hkeys, hkeys', heq]
      rfl
  unfold backers good
  rw [List.toFinset_card_of_nodup hdistinct, List.length_map, List.countP_eq_length_filter]

/-- The replicas behind a unit are replicas of its row. -/
theorem backers_subset [LawfulEqOrd υ] {rowOf : υ → Bytes} {route : Bytes → List ReplicaId}
    {keys : List κ} (hplan : r.plan = groupByReplica (fun k => rowOf (r.unitOf k)) route keys)
    (hgen : r.Genuine cs) : r.backers cs u ⊆ (route (rowOf u)).toFinset := by
  intro id hid
  obtain ⟨d, hd, rfl, hcov, -⟩ := mem_backers.1 hid
  obtain ⟨group, hget⟩ := hgen d hd
  obtain ⟨⟨id', group'⟩, hget', hu⟩ := covers_iff.1 hcov
  rw [hget] at hget'
  cases hget'
  have hmem : (d.replica, group) ∈ r.plan := List.mem_of_getElem? hget
  rw [hplan, mem_groupByReplica_iff] at hmem
  obtain ⟨key, hkey, rfl⟩ := List.mem_map.1 hu
  rw [hmem.2] at hkey
  exact List.mem_toFinset.2 (mem_ownKeys.1 hkey).2

end Backers

end QuorumRequest

/-- **Two large sets of replicas of a row meet.** -/
theorem exists_common {replicas : List ReplicaId} {A B : Finset ReplicaId} {n : Nat}
    (hreplicas : replicas.toFinset.card ≤ n) (hA : A ⊆ replicas.toFinset)
    (hB : B ⊆ replicas.toFinset) (hlarge : n < A.card + B.card) : ∃ id, id ∈ A ∧ id ∈ B := by
  obtain ⟨id, hid⟩ := Finset.inter_nonempty_of_card_lt_card_add_card hA hB (by omega)
  exact ⟨id, Finset.mem_inter.1 hid⟩

end QuorumStore
