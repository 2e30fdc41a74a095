import QuorumStore.Proofs.Quorum.FailFast
import QuorumStore.Proofs.Ring.Replicas

/-!
# What a request reports that lacks replicas

A request whose calls have all finished without a verdict reports how many answers were needed and
how many it got. The number needed is that of one unit, the number it got is that of all its calls,
whether they were for that unit or not.

* `QuorumRequest.elsewhere`: the calls that succeeded and were not for a unit.
* `QuorumRequest.of_execute_short`: what is reported, and the unit that has no verdict.
* `Coordinator.covers_iff`: a call is for a unit exactly if its replica holds the row of the unit.
* `Coordinator.shortage_of_execute`: **the report is right as long as few calls succeeded elsewhere**,
  which is so on every ring that keeps as many replicas of a row as the coordinator counts on.
-/

namespace QuorumStore

open Std Quorum

namespace QuorumRequest

variable {κ υ τ α : Type} [Ord υ] {r : QuorumRequest κ υ τ α} {cs : List (Completion τ)}

/-- How many of the finished calls succeeded without a key of the unit. -/
def elsewhere (r : QuorumRequest κ υ τ α) (cs : List (Completion τ)) (u : υ) : Nat :=
  cs.countP fun c => !r.covers u c.ticket && c.result.isOk

/-- A call that succeeded did so for the unit or elsewhere. -/
theorem good_add_elsewhere (r : QuorumRequest κ υ τ α) (cs : List (Completion τ)) (u : υ) :
    r.good cs u + r.elsewhere cs u = cs.countP fun c => c.result.isOk := by
  unfold good elsewhere
  induction cs with
  | nil => rfl
  | cons c cs ih =>
    rw [List.countP_cons, List.countP_cons, List.countP_cons, ← ih]
    cases r.covers u c.ticket <;> cases c.result.isOk <;> simp <;> omega

theorem elsewhere_eq_zero {u : υ} (h : ∀ c ∈ cs, r.covers u c.ticket = true) :
    r.elsewhere cs u = 0 := by
  unfold elsewhere
  rw [List.countP_eq_zero]
  intro c hc
  rw [h c hc]
  exact Bool.false_ne_true

variable [TransOrd υ] [LawfulEqOrd υ] {operation : String} {needed got : Nat}

/-- **What is reported of a shortage**: the quorum of a unit, and the successes of all calls; some
unit has no verdict. -/
theorem of_execute_short (harr : r.Arrived cs) (t : Telemetry)
    (h : (r.execute t cs).1 = .error (.tooFewReplicas operation needed got)) :
    operation = r.operation ∧ needed = r.policy.success ∧
      got = (cs.countP fun c => c.result.isOk) ∧
      ∃ u ∈ r.units, r.good cs u < r.policy.success ∧ r.bad cs u < r.policy.failure := by
  have hstop := drain_stop (r := r) r.follows_start.coherent r.start_failed cs
  have hout : (r.execute t cs).1 = r.outcome (r.drain r.start cs).1 (r.drain r.start cs).2.2 := rfl
  rw [hout] at h
  generalize (r.drain r.start cs).1 = g at hstop h
  generalize (r.drain r.start cs).2.2 = progress at hstop h
  cases hstop with
  | answered => cases h
  | unreachable => cases h
  | undecided hopen hgood =>
    cases h
    have hall := follows_takeAll harr
    refine ⟨rfl, rfl, hall.successes, ?_⟩
    by_contra hnone
    -- a unit without a verdict has neither number
    refine absurd (hall.coherent.finished_iff.2 fun u c hc hpending => hnone ?_)
      (by rw [hopen]; decide)
    have hfair := hall.policy ▸ hall.coherent.fair u c hc
    obtain ⟨hs, hf⟩ := hfair.pending_iff.1 hpending
    obtain ⟨hsuccesses, hfailures⟩ := hall.counts u c hc
    exact ⟨u, hall.unit_mem hc, hsuccesses ▸ hs, hfailures ▸ hf⟩

end QuorumRequest

namespace Coordinator

variable {c : Coordinator} {α : Type} {v : Verb α} {q : c.Routed α} {cs : List (Completion α)}
  {operation : String} {needed got : Nat}

/-- **A call is for a unit exactly if its replica holds the row of the unit.** -/
theorem covers_iff (hq : c.routed? v = some q) {u : q.υ} (hu : u ∈ q.request.units) {ticket : Nat}
    {id : ReplicaId} {group : List q.κ} (hget : q.request.plan[ticket]? = some (id, group)) :
    q.request.covers u ticket = true ↔ id ∈ c.placement.replicasOf (q.rowOf u) := by
  obtain ⟨key, hkey, rfl⟩ := exists_key hq hu
  have hmem := List.mem_of_getElem? hget
  rw [q.plan_eq] at hmem
  have hgroup := (mem_groupByReplica_iff.1 hmem).2
  rw [QuorumRequest.covers_iff]
  constructor
  · rintro ⟨p, hp, hcovered⟩
    obtain rfl := Option.some.inj (hget.symm.trans hp)
    obtain ⟨k, hk, hunit⟩ := List.mem_map.1 hcovered
    rw [hgroup] at hk
    rw [← hunit]
    exact (mem_ownKeys.1 hk).2
  · intro hholds
    refine ⟨_, hget, List.mem_map.2 ⟨key, ?_, rfl⟩⟩
    rw [hgroup]
    exact mem_ownKeys.2 ⟨hkey, hholds⟩

/-- A replica is called only about rows that it holds. -/
theorem exists_row_of_call {ticket : Nat} {id : ReplicaId} {group : List q.κ}
    (hget : q.request.plan[ticket]? = some (id, group)) :
    ∃ key ∈ q.keys, id ∈ c.placement.replicasOf (q.rowOf (q.request.unitOf key)) := by
  have hmem := List.mem_of_getElem? hget
  rw [q.plan_eq] at hmem
  exact (mem_groupByReplica_iff.1 hmem).1

/-- **What a shortage reports is right as long as few calls succeeded elsewhere.** A request whose
calls have all finished without a verdict needed the quorum of a unit and got the successes of all
its calls. Some unit has no verdict, and the number reported falls short of the quorum exactly if
fewer calls succeeded without a key of the unit than the unit lacks. That is so on every ring that
keeps as many replicas of a row as the coordinator counts on. -/
theorem shortage_of_execute (hq : c.routed? v = some q)
    (hcs : (cs.map Completion.ticket).Perm (List.range q.request.plan.length)) (t : Telemetry)
    (h : (q.request.execute t cs).1 = .error (.tooFewReplicas operation needed got)) :
    operation = q.request.operation ∧ needed = q.request.policy.success ∧
      got = (cs.countP fun d => d.result.isOk) ∧
      (∃ u ∈ q.request.units, q.request.good cs u < needed ∧
        q.request.bad cs u < q.request.policy.failure ∧
        (got < needed ↔ q.request.elsewhere cs u < needed - q.request.good cs u)) ∧
      ((∀ k ∈ q.keys, ∀ k' ∈ q.keys, c.placement.replicasOf (q.rowOf (q.request.unitOf k)) =
        c.placement.replicasOf (q.rowOf (q.request.unitOf k'))) → got < needed) ∧
      ∀ ring : Ring, c.placement = ring.placement → c.factors.replication ≤ ring.replication →
        got < needed := by
  have harr := QuorumRequest.arrived_of_all hcs
  obtain ⟨rfl, rfl, hgot, u, hu, hgood, hbad⟩ := QuorumRequest.of_execute_short harr t h
  have hsum := q.request.good_add_elsewhere cs u
  -- where every replica that is called holds the row of the unit, all calls are for it
  have htrue : (∀ (ticket : Nat) (id : ReplicaId) (group : List q.κ),
      q.request.plan[ticket]? = some (id, group) → id ∈ c.placement.replicasOf (q.rowOf u)) →
      got < q.request.policy.success := by
    intro hall
    have hnone : q.request.elsewhere cs u = 0 := by
      refine QuorumRequest.elsewhere_eq_zero fun d hd => ?_
      have hget := List.getElem?_eq_getElem (harr.planned d hd)
      exact (covers_iff hq hu hget).2 (hall _ _ _ hget)
    omega
  refine ⟨rfl, rfl, hgot, ⟨u, hu, hgood, hbad, by omega⟩, fun hsame => ?_, fun ring hring hrep => ?_⟩
  · refine htrue fun ticket id group hget => ?_
    obtain ⟨key, hkey, hid⟩ := exists_row_of_call hget
    obtain ⟨key', hkey', rfl⟩ := exists_key hq hu
    rw [hsame key' hkey' key hkey]
    exact hid
  · -- a unit without a verdict has fewer replicas than the ring promises, so it has all endpoints
    have hanswers : q.request.good cs u + q.request.bad cs u =
        (ring.replicasOf (q.rowOf u)).length := by
      rw [QuorumRequest.good_add_bad, hcs.countP_eq,
        ← List.toFinset_card_of_nodup (ring.nodup_replicasOf (q.rowOf u))]
      have hcard := callsFor_eq_card hq hu
      rw [hring] at hcard
      exact hcard
    have hfew : ¬ (ring.replicasOf (q.rowOf u)).length = ring.replication := by
      have hthresholds := q.request.policy.failure_add_success
      rw [policy_replication hq] at hthresholds
      omega
    have hall := (ring.full_or_all (q.rowOf u)).resolve_left hfew
    refine htrue fun ticket id group hget => ?_
    obtain ⟨key, -, hid⟩ := exists_row_of_call hget
    rw [hring] at hid ⊢
    exact hall id (Ring.mem_replicas_of_mem_replicasOf hid)

section Rings

/-- A read of two cells in different rows. -/
def readBoth : Verb (ExtTreeMap Cell Value) :=
  .get "t" ((∅ : ExtTreeMap Cell Timestamp).insert ⟨[107], [99]⟩ 6 |>.insert ⟨[144], [99]⟩ 6)

/-- A ring that would keep three replicas of a row but has one endpoint. -/
def oneEndpoint : Ring where
  version := 1
  replication := 3
  tokens := (∅ : ExtTreeMap Bytes ReplicaId).insert [0] "only"
  replication_le := three_le_maxReplicas

/-- A coordinator that counts on three replicas of a row. -/
def shortOfEndpoints : Coordinator where
  factors :=
    { replication := 3, read := 2, write := 2
      read_pos := Nat.two_pos, read_le := Nat.le_succ 2
      write_pos := Nat.two_pos, write_le := Nat.le_succ 2 }
  placement := oneEndpoint.placement

/-- The only endpoint answers for every row, and the report says that one answer is too few. -/
theorem shortage_oneEndpoint : ∃ q, shortOfEndpoints.routed? readBoth = some q ∧
    (q.request.execute {} [⟨0, "only", .ok ∅⟩]).1 = .error (.tooFewReplicas "get" 2 1) ∧
    1 < 2 ∧ ∃ u ∈ q.request.units, q.request.good [⟨0, "only", .ok ∅⟩] u < 2 ∧
      q.request.elsewhere [⟨0, "only", .ok ∅⟩] u < 2 - q.request.good [⟨0, "only", .ok ∅⟩] u := by
  refine ⟨_, rfl, rfl, ?_⟩
  obtain ⟨-, -, -, ⟨u, hu, hgood, -, hiff⟩, -, hring⟩ :=
    @shortage_of_execute shortOfEndpoints _ readBoth _ [⟨0, "only", .ok ∅⟩] "get" 2 1 rfl (by decide)
      {} rfl
  have hlt := hring oneEndpoint rfl (by decide)
  exact ⟨hlt, u, hu, hgood, hiff.1 hlt⟩

/-- A coordinator that counts on two replicas of a row, on a ring of two tokens that keeps one. -/
def splitTokens : Coordinator where
  factors :=
    { replication := 2, read := 2, write := 2
      read_pos := Nat.two_pos, read_le := Nat.le_refl 2
      write_pos := Nat.two_pos, write_le := Nat.le_refl 2 }
  placement :=
    { version := 1, replication := 1
      tokens := (∅ : ExtTreeMap Bytes ReplicaId).insert [0] "a" |>.insert [128] "b"
      replication_le := one_le_maxReplicas : Ring }.placement

/-- **Enough is reported where there is too little**: each cell has the one answer that it can get
and needs two; of the two answers that are needed two are reported to have come. -/
theorem overcounted_splitTokens : ∃ q, splitTokens.routed? readBoth = some q ∧
    ([⟨0, "a", .ok ∅⟩, ⟨1, "b", .ok ∅⟩] : List (Completion (ExtTreeMap Cell Value))).map
      Completion.ticket = List.range q.request.plan.length ∧
    (q.request.execute {} [⟨0, "a", .ok ∅⟩, ⟨1, "b", .ok ∅⟩]).1 =
      .error (.tooFewReplicas "get" 2 2) ∧
    (∀ u ∈ q.request.units, q.request.callsFor u = 1) ∧ ¬ 2 < 2 := by
  exact ⟨_, rfl, rfl, rfl, by decide, by decide⟩

end Rings

end Coordinator

end QuorumStore
