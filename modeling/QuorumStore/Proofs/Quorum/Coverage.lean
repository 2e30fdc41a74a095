import Mathlib.Data.Finset.Card
import QuorumStore.Coordinator
import QuorumStore.Placement.Split
import QuorumStore.Proofs.Grouping
import QuorumStore.Proofs.Quorum.Verdict

/-!
# How many calls count for a unit

The keys of a request are grouped by replica; each group becomes a call, which is registered for the
units of its keys. On the way repetitions are dropped twice: a replica that a row is routed to
several times is called once, and a call that carries several keys of a unit counts for it once.
What is left for a unit are the different replicas of its row.

* `Quorum.Tally.handlesFor`, `length_handlesFor_start`: the calls registered for a unit are those of
  the plan that carry a key of it.
* `callsFor_of_groups`: they are as many as the row of the unit has replicas.
* `groupByReplica_exact`: **grouping loses and invents nothing.**
-/

namespace QuorumStore

open Std Quorum

/-- The handles of the calls on their way that count for a unit. -/
def Quorum.Tally.handlesFor {η υ : Type} [Ord η] [TransOrd η] [Ord υ] [TransOrd υ] (t : Tally η υ)
    (u : υ) : List η :=
  (t.calls.filter fun _ covered => covered.contains u).keys

namespace QuorumRequest

variable {κ υ τ α : Type} [Ord υ] {r : QuorumRequest κ υ τ α}

/-- The calls of a unit, counted along the plan. -/
theorem callsFor_eq_countP (r : QuorumRequest κ υ τ α) (u : υ) :
    r.callsFor u =
      r.plan.countP fun p => p.2.any fun key => compare (r.unitOf key) u = .eq := by
  unfold callsFor covers
  induction r.plan with
  | nil => rfl
  | cons p plan ih =>
    rw [List.length_cons, List.range_succ_eq_map, List.countP_cons, List.countP_map,
      List.countP_cons, ← ih]
    rfl

variable [LawfulEqOrd υ]

/-- **A unit has as many calls as its row has replicas.** -/
theorem callsFor_of_groups {rowOf : υ → Bytes} {route : Bytes → List ReplicaId} {keys : List κ}
    (hplan : r.plan = groupByReplica (fun k => rowOf (r.unitOf k)) route keys) {key : κ}
    (hkey : key ∈ keys) :
    r.callsFor (r.unitOf key) = (route (rowOf (r.unitOf key))).toFinset.card := by
  let covered : ReplicaId × List κ → Bool := fun p =>
    p.2.any fun k => compare (r.unitOf k) (r.unitOf key) = .eq
  have hdistinct : ((r.plan.filter covered).map Prod.fst).Nodup := by
    rw [hplan]
    exact (ids_nodup_groupByReplica _ _ _).sublist (List.filter_sublist.map _)
  have hids : ((r.plan.filter covered).map Prod.fst).toFinset =
      (route (rowOf (r.unitOf key))).toFinset := by
    ext id
    simp only [covered, List.mem_toFinset, List.mem_map, List.mem_filter, Prod.exists,
      exists_and_right, exists_eq_right, List.any_eq_true, decide_eq_true_eq,
      LawfulEqOrd.compare_eq_iff_eq, hplan]
    constructor
    · rintro ⟨group, hmem, k, hk, heq⟩
      rw [(mem_groupByReplica_iff.1 hmem).2] at hk
      rw [← heq]
      exact (mem_ownKeys.1 hk).2
    · intro hid
      exact ⟨_, mem_groupByReplica_iff.2 ⟨⟨key, hkey, hid⟩, rfl⟩, key,
        mem_ownKeys.2 ⟨hkey, hid⟩, rfl⟩
  rw [callsFor_eq_countP, List.countP_eq_length_filter, ← hids,
    List.toFinset_card_of_nodup hdistinct, List.length_map]

variable [TransOrd υ]

/-- Before any call has finished, a call is registered for a unit exactly if it carries a key of
the unit. -/
theorem mem_handlesFor_start {u : υ} (hu : u ∈ r.units) {ticket : Nat} :
    ticket ∈ r.start.tally.handlesFor u ↔ r.covers u ticket = true := by
  unfold Tally.handlesFor
  rw [ExtTreeMap.mem_keys, ExtTreeMap.mem_iff_isSome_getElem?, ExtTreeMap.getElem?_filter',
    r.follows_start.calls, List.map_nil, if_neg List.not_mem_nil, covers_iff]
  cases r.plan[ticket]? with
  | none => simp
  | some p =>
    have hcovered : (r.coveredBy p.2).contains u = true ↔ u ∈ p.2.map r.unitOf :=
      ExtTreeSet.mem_iff_contains.symm.trans (mem_coveredBy.trans (and_iff_left hu))
    simp only [Option.map_some, Option.isSome_filter, Option.any_some, hcovered, Option.some.injEq,
      exists_eq_left']

/-- **The calls registered for a unit** are those of the plan that carry a key of it. -/
theorem length_handlesFor_start {u : υ} (hu : u ∈ r.units) :
    (r.start.tally.handlesFor u).length = r.callsFor u := by
  have hnodup : (r.start.tally.handlesFor u).Nodup := ExtTreeMap.nodup_keys
  have hperm : (r.start.tally.handlesFor u).Perm
      ((List.range r.plan.length).filter (r.covers u)) := by
    refine (List.perm_ext_iff_of_nodup hnodup (List.nodup_range.filter _)).2 fun ticket => ?_
    rw [mem_handlesFor_start hu, List.mem_filter, List.mem_range]
    refine (and_iff_right_of_imp fun hcov => ?_).symm
    obtain ⟨p, hp, -⟩ := covers_iff.1 hcov
    exact (List.getElem?_eq_some_iff.1 hp).1
  rw [hperm.length_eq, callsFor, List.countP_eq_length_filter]

end QuorumRequest

section Exact

variable {κ υ τ α : Type} [Ord υ] [TransOrd υ] [LawfulEqOrd υ]

/-- **Grouping loses and invents nothing.** There is one group for each replica that the row of some
key is routed to, in the order of replica ids. No group is empty: that of a replica has every key as
often as the key's row is routed to the replica, in the order of the keys. Where the groups are the
calls of a request whose units are those of the keys, the calls registered for a unit are as many as
there are different replicas of its row. -/
theorem groupByReplica_exact (row : κ → Bytes) (route : Bytes → List ReplicaId) (keys : List κ) :
    ((groupByReplica row route keys).Pairwise fun a b => a.1 < b.1) ∧
      (∀ id, id ∈ (groupByReplica row route keys).map Prod.fst ↔
        ∃ key ∈ keys, id ∈ route (row key)) ∧
      (∀ id group, (id, group) ∈ groupByReplica row route keys → group ≠ [] ∧
        group = keys.flatMap fun key => List.replicate ((route (row key)).count id) key) ∧
      ∀ (r : QuorumRequest κ υ τ α) (rowOf : υ → Bytes), (∀ key, rowOf (r.unitOf key) = row key) →
        r.plan = groupByReplica row route keys →
        (∀ u, u ∈ r.units ↔ u ∈ keys.map r.unitOf) →
        ∀ u ∈ r.units, (r.start.tally.handlesFor u).length = (route (rowOf u)).toFinset.card := by
  refine ⟨?_, fun id => ?_, fun id group hgroup => ⟨?_, ?_⟩, fun r rowOf hrow hplan hunits u hu => ?_⟩
  · exact (ids_pairwise_groupByReplica row route keys).imp compareOfLessAndEq_eq_lt.1
  · rw [List.mem_map]
    constructor
    · rintro ⟨⟨id, group⟩, hgroup, rfl⟩
      exact (mem_groupByReplica_iff.1 hgroup).1
    · intro hrouted
      exact ⟨_, mem_groupByReplica_iff.2 ⟨hrouted, rfl⟩, rfl⟩
  · obtain ⟨⟨key, hkey, hid⟩, rfl⟩ := mem_groupByReplica_iff.1 hgroup
    exact List.ne_nil_of_mem (mem_ownKeys.2 ⟨hkey, hid⟩)
  · exact (mem_groupByReplica_iff.1 hgroup).2
  · obtain ⟨key, hkey, rfl⟩ := List.mem_map.1 ((hunits u).1 hu)
    obtain rfl : (fun key => rowOf (r.unitOf key)) = row := funext hrow
    rw [QuorumRequest.length_handlesFor_start hu, QuorumRequest.callsFor_of_groups hplan hkey]

end Exact

/-- A coordinator whose placement lists a replica of the lower rows twice. -/
def listsTwice : Coordinator where
  factors :=
    { replication := 1, read := 1, write := 1
      read_pos := Nat.one_pos, read_le := Nat.one_pos
      write_pos := Nat.one_pos, write_le := Nat.one_pos }
  placement := { version := 1, key := [128], low := ["b", "a", "b"], high := ["c"] : Split }.placement

/-- A read that asks for a lower row twice. -/
def asksTwice : QuorumRequest Bytes Bytes (ExtTreeMap Cell Value) (ExtTreeMap Cell Value) :=
  listsTwice.getRows "t" [[1], [200], [1]] .all 9

/-- A row that is asked for twice and routed to a replica twice is in that replica's group four
times, and two calls count for it. -/
theorem groupByReplica_exact_asksTwice :
    asksTwice.plan =
      [("a", [[1], [1]]), ("b", [[1], [1], [1], [1]]), ("c", [[200]])] ∧
    (∀ u, u ∈ asksTwice.units ↔ u ∈ [[1], [200], [1]].map asksTwice.unitOf) ∧
    [1] ∈ asksTwice.units ∧ (asksTwice.start.tally.handlesFor [1]).length = 2 := by
  have hunits : ∀ u, u ∈ asksTwice.units ↔ u ∈ [[1], [200], [1]].map asksTwice.unitOf :=
    fun u => Iff.rfl
  have hrow : [1] ∈ asksTwice.units := List.mem_cons_self
  refine ⟨by decide, hunits, hrow, ?_⟩
  exact (groupByReplica_exact id listsTwice.placement.replicasOf [[1], [200], [1]]).2.2.2
    asksTwice id (fun _ => rfl) rfl hunits [1] hrow

end QuorumStore
