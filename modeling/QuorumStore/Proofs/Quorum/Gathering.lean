import QuorumStore.Proofs.Quorum.Tally
import QuorumStore.Quorum.Request

/-!
# The state of a request as a function of the calls that finished

A request that is being answered keeps what the finished calls have told it. Here that state is
described by the list of those calls alone.

* `Mode.isRead`: whether a request gives up calls when it is answered.
* `QuorumRequest.covers`, `QuorumRequest.good`, `QuorumRequest.bad`: the calls of a unit, and how
  many of them succeeded and failed.
* `QuorumRequest.Follows`: what a state knows once the listed calls have finished.
* `follows_start`, `Follows.take`: it is so at the start, and one more call keeps it so.
-/

namespace QuorumStore

open Std Quorum

/-- Whether the calls of a request are given up once it is answered. -/
def Mode.isRead {τ : Type} : Mode τ → Bool
  | .read => true
  | .write => false

namespace QuorumRequest

variable {κ υ τ α : Type}

/-- Finished calls are different calls of the plan. -/
structure Arrived (r : QuorumRequest κ υ τ α) (cs : List (Completion τ)) : Prop where
  nodup : (cs.map Completion.ticket).Nodup
  planned : ∀ c ∈ cs, c.ticket < r.plan.length

theorem Arrived.of_append {r : QuorumRequest κ υ τ α} {pre post : List (Completion τ)}
    (h : r.Arrived (pre ++ post)) : r.Arrived pre := by
  refine ⟨?_, fun c hc => h.planned c (List.mem_append_left _ hc)⟩
  have hnodup := h.nodup
  rw [List.map_append] at hnodup
  exact (List.nodup_append.1 hnodup).1

/-- A call that finishes has not finished before. -/
theorem Arrived.fresh {r : QuorumRequest κ υ τ α} {pre post : List (Completion τ)} {d : Completion τ}
    (h : r.Arrived (pre ++ d :: post)) : d.ticket ∉ pre.map Completion.ticket := by
  have hnodup := h.nodup
  rw [List.map_append, List.map_cons, List.nodup_append] at hnodup
  exact fun hmem => hnodup.2.2 _ hmem _ List.mem_cons_self rfl

variable [Ord υ]

/-- Whether a call carries a key of a unit. -/
def covers (r : QuorumRequest κ υ τ α) (u : υ) (ticket : Nat) : Bool :=
  r.plan[ticket]?.any fun (_, keys) => keys.any fun key => compare (r.unitOf key) u = .eq

/-- How many of the finished calls succeeded for a unit. -/
def good (r : QuorumRequest κ υ τ α) (cs : List (Completion τ)) (u : υ) : Nat :=
  cs.countP fun c => r.covers u c.ticket && c.result.isOk

/-- How many of the finished calls failed for a unit. -/
def bad (r : QuorumRequest κ υ τ α) (cs : List (Completion τ)) (u : υ) : Nat :=
  cs.countP fun c => r.covers u c.ticket && !c.result.isOk

theorem covers_iff [LawfulEqOrd υ] {r : QuorumRequest κ υ τ α} {u : υ} {k : Nat} :
    r.covers u k = true ↔ ∃ p, r.plan[k]? = some p ∧ u ∈ p.2.map r.unitOf := by
  unfold covers
  rw [Option.any_eq_true]
  simp only [List.any_eq_true, decide_eq_true_eq, LawfulEqOrd.compare_eq_iff_eq, List.mem_map]

theorem good_append (r : QuorumRequest κ υ τ α) (cs ds : List (Completion τ)) (u : υ) :
    r.good (cs ++ ds) u = r.good cs u + r.good ds u := List.countP_append

theorem bad_append (r : QuorumRequest κ υ τ α) (cs ds : List (Completion τ)) (u : υ) :
    r.bad (cs ++ ds) u = r.bad cs u + r.bad ds u := List.countP_append

theorem good_singleton (r : QuorumRequest κ υ τ α) (c : Completion τ) (u : υ) :
    r.good [c] u = if r.covers u c.ticket then (if c.result.isOk then 1 else 0) else 0 := by
  unfold good
  rw [List.countP_singleton]
  cases r.covers u c.ticket <;> simp

theorem bad_singleton (r : QuorumRequest κ υ τ α) (c : Completion τ) (u : υ) :
    r.bad [c] u = if r.covers u c.ticket then (if c.result.isOk then 0 else 1) else 0 := by
  unfold bad
  rw [List.countP_singleton]
  cases r.covers u c.ticket <;> cases c.result.isOk <;> rfl

variable [TransOrd υ]

/-- The units that a call of the plan counts for. -/
def coveredBy (r : QuorumRequest κ υ τ α) (keys : List κ) : ExtTreeSet υ :=
  ExtTreeSet.ofList
    ((keys.map r.unitOf).filter (Tally.ofUnits r.units r.policy : Tally Nat υ).units.contains)
    compare

/-- **What is known once the calls `cs` have finished**: every unit has been credited with exactly
its own calls, and the good answers have been merged in the order in which they came. -/
structure Follows (r : QuorumRequest κ υ τ α) (cs : List (Completion τ)) (g : Gathering υ α) :
    Prop where
  policy : g.tally.policy = r.policy
  running : g.tally.cancelled = false
  coherent : g.tally.Coherent
  calls : ∀ k : Nat, g.tally.calls[k]? =
    if k ∈ cs.map Completion.ticket then none else r.plan[k]?.map fun p => r.coveredBy p.2
  known : ∀ u : υ, u ∈ g.tally.units ↔ u ∈ r.units
  counts : ∀ (u : υ) (c : UnitCount), g.tally.units[u]? = some c →
    c.successes = r.good cs u ∧ c.failures = r.bad cs u
  successes : g.successes = cs.countP fun c => c.result.isOk
  answer : g.answer = (cs.filterMap fun c => c.result.toOption).foldl r.merge r.empty

section Start

/-- Registering calls changes nothing but the calls on their way. -/
theorem register_plan (r : QuorumRequest κ υ τ α) (plan : List (ReplicaId × List κ)) (n : Nat)
    (t : Tally Nat υ) :
    ∃ calls, (plan.zipIdx n).foldl
        (fun t ((_, keys), ticket) => t.register ticket (keys.map r.unitOf)) t = { t with calls } ∧
      ∀ k : Nat, calls[k]? =
        if n ≤ k ∧ k < n + plan.length then
          plan[k - n]?.map fun p =>
            ExtTreeSet.ofList ((p.2.map r.unitOf).filter t.units.contains) compare
        else t.calls[k]? := by
  induction plan generalizing n t with
  | nil => exact ⟨t.calls, rfl, fun k => by rw [if_neg (by simp)]⟩
  | cons p rest ih =>
    -- the first call has number `n`, and the others are numbered from `n + 1`
    obtain ⟨calls, heq, hcalls⟩ := ih (n + 1) (t.register n (p.2.map r.unitOf))
    refine ⟨calls, ?_, fun k => ?_⟩
    · rw [List.zipIdx_cons, List.foldl_cons]
      exact heq
    · rw [hcalls]
      by_cases hk : k = n
      · subst hk
        rw [if_neg (by omega), if_pos (by simp)]
        simp [Tally.register]
      · by_cases hin : n + 1 ≤ k ∧ k < n + 1 + rest.length
        · rw [if_pos hin, if_pos (by rw [List.length_cons]; omega)]
          obtain ⟨j, rfl⟩ : ∃ j, k = n + 1 + j := ⟨k - (n + 1), by omega⟩
          rw [show n + 1 + j - (n + 1) = j by omega, show n + 1 + j - n = j + 1 by omega,
            List.getElem?_cons_succ]
          rfl
        · rw [if_neg hin, if_neg (by rw [List.length_cons]; omega)]
          simp [Tally.register, ExtTreeMap.getElem?_insert, Ne.symm hk]

variable [LawfulEqOrd υ]

/-- Before any call has finished every call is on its way and no unit has an answer. -/
theorem follows_start (r : QuorumRequest κ υ τ α) : r.Follows [] r.start := by
  obtain ⟨calls, heq, hcalls⟩ :=
    r.register_plan r.plan 0 (Tally.ofUnits r.units r.policy)
  have hcoh := Tally.coherent_ofUnits (η := Nat) r.units r.policy
  have hunit : ∀ (u : υ) (c : UnitCount),
      (Tally.ofUnits r.units r.policy : Tally Nat υ).units[u]? = some c ↔ u ∈ r.units ∧ c = {} :=
    fun u c => Tally.getElem?_ofUnits
  unfold start
  rw [heq]
  refine ⟨rfl, rfl, ⟨hcoh.undecided_eq, hcoh.failed_iff, hcoh.fair⟩, ?_, ?_, ?_, rfl, rfl⟩
  · intro k
    rw [hcalls k]
    by_cases hk : k < r.plan.length
    · rw [if_pos (by omega)]; rfl
    · rw [if_neg (by omega), List.map_nil, if_neg (by simp), List.getElem?_eq_none (by omega)]
      rfl
  · intro u
    rw [ExtTreeMap.mem_iff_isSome_getElem?, Option.isSome_iff_exists]
    exact ⟨fun ⟨c, hc⟩ => ((hunit u c).1 hc).1, fun hu => ⟨{}, (hunit u {}).2 ⟨hu, rfl⟩⟩⟩
  · intro u c hc
    rw [((hunit u c).1 hc).2]
    exact ⟨rfl, rfl⟩

end Start

section Take

variable {r : QuorumRequest κ υ τ α} {g : Gathering υ α} {c : Completion τ}

/-- The state after a call that was still on its way. -/
theorem take_state (hout : g.tally.isOutstanding c.ticket = true) :
    (r.take g c).1 =
      { tally := g.tally.resolve c.ticket c.result.isOk
        answer := c.result.toOption.elim g.answer (r.merge g.answer)
        successes := g.successes + if c.result.isOk then 1 else 0 } := by
  unfold take
  rw [hout]
  cases c.result <;> rfl

/-- What is noted of a call that was still on its way. -/
theorem take_remark (hout : g.tally.isOutstanding c.ticket = true) :
    (r.take g c).2 =
      match c.result with
      | .ok _ => none
      | .error e =>
        some (if (r.take g c).1.tally.failed then .decisive c.replica e else .absorbed c.replica e) := by
  unfold take
  rw [hout]
  cases c.result <;> rfl

variable {cs : List (Completion τ)}

/-- A planned call that has not finished is on its way. -/
theorem Follows.isOutstanding (h : r.Follows cs g) (hplan : c.ticket < r.plan.length)
    (hnew : c.ticket ∉ cs.map Completion.ticket) : g.tally.isOutstanding c.ticket = true := by
  unfold Tally.isOutstanding
  rw [h.running, ExtTreeMap.contains_eq_isSome_getElem?, h.calls, if_neg hnew,
    List.getElem?_eq_getElem hplan]
  rfl

/-- The units that a planned call counts for when it finishes. -/
theorem Follows.calls_get (h : r.Follows cs g) (hplan : c.ticket < r.plan.length)
    (hnew : c.ticket ∉ cs.map Completion.ticket) :
    g.tally.calls[c.ticket]? = some (r.coveredBy r.plan[c.ticket].2) := by
  rw [h.calls, if_neg hnew, List.getElem?_eq_getElem hplan]
  rfl

variable [LawfulEqOrd υ]

theorem mem_coveredBy {keys : List κ} {u : υ} :
    u ∈ r.coveredBy keys ↔ u ∈ keys.map r.unitOf ∧ u ∈ r.units := by
  unfold coveredBy
  rw [mem_setOfList, List.mem_filter, ← ExtTreeMap.mem_iff_contains]
  unfold Tally.ofUnits
  rw [mem_mapOfList, List.map_map]
  simp

/-- A finished call is counted for the units whose keys it carries, and for no other. -/
theorem Follows.counts_resolve (h : r.Follows cs g) (hplan : c.ticket < r.plan.length)
    (hnew : c.ticket ∉ cs.map Completion.ticket) {u : υ} {n : UnitCount}
    (hn : (g.tally.resolve c.ticket c.result.isOk).units[u]? = some n) :
    n.successes = r.good (cs ++ [c]) u ∧ n.failures = r.bad (cs ++ [c]) u := by
  have hget : r.plan[c.ticket]? = some r.plan[c.ticket] := List.getElem?_eq_getElem hplan
  rw [good_append, bad_append, good_singleton, bad_singleton]
  rw [Tally.getElem?_resolve c.result.isOk h.running (h.calls_get hplan hnew)] at hn
  split at hn
  · rename_i hu
    obtain ⟨n', hn', rfl⟩ := Option.map_eq_some_iff.1 hn
    obtain ⟨hs, hf⟩ := h.counts u n' hn'
    have hcov : r.covers u c.ticket = true := covers_iff.2 ⟨_, hget, (mem_coveredBy.1 hu).1⟩
    rw [if_pos hcov, if_pos hcov, UnitCount.credit_successes, UnitCount.credit_failures, hs, hf]
    exact ⟨rfl, rfl⟩
  · rename_i hu
    have hknown : u ∈ r.units := (h.known u).1
      (ExtTreeMap.mem_iff_isSome_getElem?.2 (by rw [hn]; rfl))
    have hoff : ¬ r.covers u c.ticket = true := by
      intro hcov
      obtain ⟨p, hp, hmem⟩ := covers_iff.1 hcov
      rw [hget] at hp
      obtain rfl := Option.some.inj hp
      exact hu (mem_coveredBy.2 ⟨hmem, hknown⟩)
    rw [if_neg hoff, if_neg hoff]
    exact h.counts u n hn

/-- **One more finished call keeps the state in step with the list of those calls.** -/
theorem Follows.take (h : r.Follows cs g) (hplan : c.ticket < r.plan.length)
    (hnew : c.ticket ∉ cs.map Completion.ticket) : r.Follows (cs ++ [c]) (r.take g c).1 := by
  have hcall := h.calls_get hplan hnew
  obtain ⟨hpol, hcalls, hrun⟩ := Tally.resolve_frame c.result.isOk h.running hcall
  rw [take_state (h.isOutstanding hplan hnew)]
  refine ⟨hpol.trans h.policy, hrun, h.coherent.resolve _ _, ?_, ?_,
    fun u n hn => h.counts_resolve hplan hnew hn, ?_, ?_⟩
  · -- the call is no longer on its way
    intro k
    rw [hcalls, ExtTreeMap.getElem?_erase, h.calls]
    by_cases hk : c.ticket = k
    · rw [if_pos (by rw [hk]; exact compare_self), if_pos (by simp [hk])]
    · rw [if_neg fun hc => hk (LawfulEqOrd.eq_of_compare hc)]
      simp [Ne.symm hk]
  · -- the units are those it had
    intro u
    rw [← h.known, ExtTreeMap.mem_iff_isSome_getElem?, ExtTreeMap.mem_iff_isSome_getElem?,
      Tally.getElem?_resolve c.result.isOk h.running hcall]
    split
    · rw [Option.isSome_map]
    · rfl
  · simp only [List.countP_append, List.countP_singleton, h.successes]
  · rw [List.filterMap_append, List.foldl_append, ← h.answer]
    cases hres : c.result <;> simp [hres, Except.toOption]

end Take

end QuorumRequest

end QuorumStore
