import QuorumStore.Placement.Ring
import QuorumStore.Proofs.Quorum.Coverage
import QuorumStore.Proofs.Routed

/-!
# When a request is given up

A request is given up at the failure that fills the failure threshold of one of its units. The
threshold is that of the configured replication factor; the calls are those of the placement.

* `of_execute_unreachable`: where a request that is given up stops.
* `callsFor_eq_card`: a unit has as many calls as its row has replicas.
* `QuorumRequest.OutOfReach`: the calls that have not failed are too few for the quorum.
* `outOfReach_iff_of_unreachable`: the quorum is out of reach exactly where the row has no more
  replicas than the configuration says.
-/

namespace QuorumStore

open Std Quorum

namespace QuorumRequest

variable {κ υ τ α : Type} [Ord υ]

/-- The calls of a unit that have not failed are fewer than its quorum. -/
def OutOfReach (r : QuorumRequest κ υ τ α) (cs : List (Completion τ)) (u : υ) : Prop :=
  r.callsFor u - r.bad cs u < r.policy.success

instance (r : QuorumRequest κ υ τ α) (cs : List (Completion τ)) (u : υ) :
    Decidable (r.OutOfReach cs u) :=
  inferInstanceAs (Decidable (_ < _))

section Stop

variable [TransOrd υ] [LawfulEqOrd υ] {r : QuorumRequest κ υ τ α} {cs : List (Completion τ)}
  {operation : String} {table : TableName} {cause : Failure}

/-- The call that makes a request fail covers a unit that was undecided, and its failure is the one
that fills the threshold of that unit. -/
theorem Follows.decided_by {g : Gathering υ α} {d : Completion τ} (h : r.Follows cs g)
    (hplan : d.ticket < r.plan.length) (hnew : d.ticket ∉ cs.map Completion.ticket)
    (hcause : d.result = .error cause) (hgood : g.tally.failed = false)
    (hfailed : (r.take g d).1.tally.failed = true) :
    ∃ u ∈ r.units, r.covers u d.ticket = true ∧ r.good cs u < r.policy.success ∧
      r.bad cs u + 1 = r.policy.failure := by
  have hnext := h.take hplan hnew
  obtain ⟨u, n, hn, hverdict⟩ := hnext.coherent.failed_iff.1 hfailed
  have hunit := hnext.unit_mem hn
  obtain ⟨old, hold, hfair, hs, hf⟩ := h.judged hunit
  have hopen : old.verdict ≠ .failed := fun hlost =>
    absurd (h.coherent.failed_iff.2 ⟨u, old, hold, hlost⟩) (by rw [hgood]; decide)
  have htally : (r.take g d).1.tally = g.tally.resolve d.ticket false := by
    rw [take_state (h.isOutstanding hplan hnew), hcause]
    rfl
  rw [htally, Tally.getElem?_resolve false h.running (h.calls_get hplan hnew), hold] at hn
  split at hn
  · rename_i hcovered
    obtain rfl := Option.some.inj hn
    have hpending : old.verdict = .pending := by
      by_contra hdecided
      rw [UnitCount.credit_verdict_of_decided false hdecided] at hverdict
      exact hopen hverdict
    obtain ⟨hsuccesses, hfailures⟩ := hfair.pending_iff.1 hpending
    have hreached := (hfair.credit false).failed (h.policy ▸ hverdict)
    rw [UnitCount.credit_failures, if_neg Bool.false_ne_true] at hreached
    refine ⟨u, hunit, covers_iff.2 ⟨_, List.getElem?_eq_getElem hplan, ?_⟩, by omega, by omega⟩
    exact (mem_coveredBy.1 hcovered).1
  · -- a unit that the call does not cover had failed before
    rw [← Option.some.inj hn] at hverdict
    exact absurd hverdict hopen

/-- **Where a request that is given up stops**: at a failure that fills the threshold of a unit
without its quorum. -/
theorem of_execute_unreachable (harr : r.Arrived cs) (t : Telemetry)
    (h : (r.execute t cs).1 = .error (.quorumUnreachable operation table cause)) :
    ∃ pre d post, cs = pre ++ d :: post ∧ d.result = .error cause ∧
      ∃ u ∈ r.units, r.covers u d.ticket = true ∧ r.good pre u < r.policy.success ∧
        r.bad pre u + 1 = r.policy.failure := by
  have hstop := drain_stop (r := r) r.follows_start.coherent r.start_failed cs
  have hout : (r.execute t cs).1 = r.outcome (r.drain r.start cs).1 (r.drain r.start cs).2.2 := rfl
  rw [hout] at h
  generalize (r.drain r.start cs).1 = g at hstop h
  generalize (r.drain r.start cs).2.2 = progress at hstop h
  cases hstop with
  | answered => cases h
  | undecided => cases h
  | unreachable pre post d cause' hcs hcause hgood hfailed =>
    subst hcs
    cases h
    have hplan := harr.planned d (by simp)
    have hpre := follows_takeAll harr.of_append
    have htake : r.takeAll r.start (pre ++ [d]) = (r.take (r.takeAll r.start pre) d).1 := by
      unfold takeAll
      rw [List.foldl_append, List.foldl_cons, List.foldl_nil]
    rw [htake] at hfailed
    exact ⟨pre, d, post, rfl, hcause, hpre.decided_by hplan harr.fresh hcause hgood hfailed⟩

end Stop

end QuorumRequest

namespace Coordinator

variable {c : Coordinator} {α : Type} {v : Verb α} {q : c.Routed α}

/-- Each unit is that of a key. -/
theorem exists_key (h : c.routed? v = some q) {u : q.υ} (hu : u ∈ q.request.units) :
    ∃ k ∈ q.keys, q.request.unitOf k = u := by
  have hpair : ∀ {β : Type} {m : ExtTreeMap Cell β} {cell : Cell}, cell ∈ m.keys →
      ∃ k ∈ m.toList, k.1 = cell := by
    intro β m cell hcell
    rw [← ExtTreeMap.map_fst_toList_eq_keys] at hcell
    exact List.mem_map.1 hcell
  cases v with
  | getRows | getAllTimestamps | putWithTimestamps | delete | addSentinels =>
    cases h
    exact ⟨u, hu, rfl⟩
  | get | getLatestTimestamps | put | putUnlessExists =>
    cases h
    exact hpair hu
  | _ => cases h

/-- Every request counts on the configured number of replicas. -/
theorem policy_replication (h : c.routed? v = some q) :
    q.request.policy.replication = c.factors.replication := by
  cases v <;> cases h <;> rfl

/-- **A unit has as many calls as its row has replicas.** -/
theorem callsFor_eq_card (h : c.routed? v = some q) {u : q.υ} (hu : u ∈ q.request.units) :
    q.request.callsFor u = (c.placement.replicasOf (q.rowOf u)).toFinset.card := by
  obtain ⟨key, hkey, rfl⟩ := exists_key h hu
  exact QuorumRequest.callsFor_of_groups q.plan_eq hkey

variable {cs : List (Completion α)} {operation : String} {table : TableName} {cause : Failure}

/-- **Giving up is sound exactly for rows with no more replicas than configured.** A request that is
given up has a unit without its quorum, at whose last failure it stops; after that failure the
quorum of the unit is out of reach if and only if the row of the unit has no more replicas than the
replication factor of the configuration, to which the placement is never compared. -/
theorem outOfReach_iff_of_unreachable (hq : c.routed? v = some q) (harr : q.request.Arrived cs)
    (t : Telemetry)
    (h : (q.request.execute t cs).1 = .error (.quorumUnreachable operation table cause)) :
    ∃ pre d post, cs = pre ++ d :: post ∧ d.result = .error cause ∧
      ∃ u ∈ q.request.units, q.request.covers u d.ticket = true ∧
        q.request.good pre u < q.request.policy.success ∧
        q.request.bad pre u + 1 = q.request.policy.failure ∧
        (q.request.OutOfReach (pre ++ [d]) u ↔
          (c.placement.replicasOf (q.rowOf u)).toFinset.card ≤ c.factors.replication) := by
  obtain ⟨pre, d, post, rfl, hcause, u, hu, hcov, hgood, hbad⟩ :=
    QuorumRequest.of_execute_unreachable harr t h
  refine ⟨pre, d, post, rfl, hcause, u, hu, hcov, hgood, hbad, ?_⟩
  have hlast : q.request.bad [d] u = 1 := by
    rw [QuorumRequest.bad_singleton, if_pos hcov, hcause]
    rfl
  have hsum := q.request.policy.failure_add_success
  have hpos := q.request.policy.success_pos
  rw [policy_replication hq] at hsum
  unfold QuorumRequest.OutOfReach
  rw [QuorumRequest.bad_append, hlast, callsFor_eq_card hq hu]
  omega

section TwoTokens

/-- A coordinator on a ring of two tokens, both of whose endpoints hold every row. -/
def twoTokens (factors : Factors) : Coordinator where
  factors
  placement :=
    { version := 1, replication := 2
      tokens := (∅ : ExtTreeMap Bytes ReplicaId).insert [0] "a" |>.insert [128] "b"
      replication_le := two_le_maxReplicas : Ring }.placement

/-- A read of one cell. -/
def readCell : Verb (ExtTreeMap Cell Value) :=
  .get "t" ((∅ : ExtTreeMap Cell Timestamp).insert ⟨[1], [2]⟩ 9)

/-- Both replicas are needed, so one failure ends the request. -/
theorem outOfReach_twoTokens : ∃ c q, c = twoTokens { replication := 2, read := 2, write := 1 } ∧
    c.routed? readCell = some q ∧
    ∃ pre d post, [⟨0, "a", .error .timeout⟩] = pre ++ d :: post ∧ d.result = .error .timeout ∧
      ∃ u ∈ q.request.units, q.request.covers u d.ticket = true ∧
        q.request.good pre u < q.request.policy.success ∧
        q.request.bad pre u + 1 = q.request.policy.failure ∧
        (q.request.OutOfReach (pre ++ [d]) u ↔
          (c.placement.replicasOf (q.rowOf u)).toFinset.card ≤ c.factors.replication) := by
  refine ⟨_, _, rfl, rfl, ?_⟩
  exact outOfReach_iff_of_unreachable (v := readCell) rfl ⟨by decide, by decide⟩ {} rfl

/-- **A quorum within reach is given up** where a row has more replicas than configured: of the two
calls one has failed, the other is all that the read needs, and were it to finish first the read
would be answered. -/
theorem inReach_twoTokens : ∃ c q, c = twoTokens { replication := 1, read := 1, write := 1 } ∧
    c.routed? readCell = some q ∧ q.request.Arrived [⟨0, "a", .error .timeout⟩] ∧
    (q.request.execute {} [⟨0, "a", .error .timeout⟩]).1 =
      .error (.quorumUnreachable "get" "t" .timeout) ∧
    (∀ u ∈ q.request.units, ¬ q.request.OutOfReach [⟨0, "a", .error .timeout⟩] u) ∧
    (q.request.execute {} [⟨1, "b", .ok ∅⟩, ⟨0, "a", .error .timeout⟩]).1 = .ok ∅ := by
  exact ⟨_, _, rfl, rfl, ⟨by decide, by decide⟩, rfl, by decide, rfl⟩

end TwoTokens

end Coordinator

end QuorumStore
