import Mathlib.Data.List.Perm.Basic
import QuorumStore.Proofs.Quorum.Drain

/-!
# The outcome of a request does not depend on the order of its answers

* `good_add_bad_le`: a unit has no more answers than calls.
* `End`: the three outcomes, each with what the numbers of all answers must be.
* `End.verdict`, `End.sameKind`: the numbers tell the outcomes apart.
* `Follows.good_of_answered`, `Follows.bad_of_failed`, `Follows.short_of_open`: what each end of the
  loop says of the numbers of answers.
* `execute_end`: a request comes to one of the three.
* `execute_verdict`: where no unit has more calls than replicas, the numbers of good and bad answers
  of each unit decide the outcome, whatever order the answers come in.
-/

namespace QuorumStore

open Std Quorum

namespace QuorumRequest

variable {κ υ τ α : Type} {r : QuorumRequest κ υ τ α} {cs : List (Completion τ)}

/-- Different calls stay different in another order. -/
theorem Arrived.of_perm {cs' : List (Completion τ)} (h : r.Arrived cs) (hperm : cs'.Perm cs) :
    r.Arrived cs' :=
  ⟨(hperm.map Completion.ticket).nodup_iff.2 h.nodup, fun c hc => h.planned c (hperm.mem_iff.1 hc)⟩

/-- Where every call of the plan has finished, the finished calls are different calls of it. -/
theorem arrived_of_all (h : (cs.map Completion.ticket).Perm (List.range r.plan.length)) :
    r.Arrived cs := by
  refine ⟨h.nodup_iff.2 List.nodup_range, fun c hc => ?_⟩
  exact List.mem_range.1 (h.mem_iff.1 (List.mem_map_of_mem hc))

variable [Ord υ]

/-- How many calls of the plan carry a key of a unit. -/
def callsFor (r : QuorumRequest κ υ τ α) (u : υ) : Nat :=
  (List.range r.plan.length).countP (r.covers u)

theorem good_add_bad (r : QuorumRequest κ υ τ α) (cs : List (Completion τ)) (u : υ) :
    r.good cs u + r.bad cs u = (cs.map Completion.ticket).countP (r.covers u) := by
  induction cs with
  | nil => rfl
  | cons c cs ih =>
    have hc : r.good [c] u + r.bad [c] u = if r.covers u c.ticket then 1 else 0 := by
      rw [good_singleton, bad_singleton]
      cases r.covers u c.ticket <;> cases c.result.isOk <;> rfl
    have hg := r.good_append [c] cs u
    have hb := r.bad_append [c] cs u
    rw [List.singleton_append] at hg hb
    rw [List.map_cons, List.countP_cons]
    omega

/-- A unit has no more answers than calls. -/
theorem good_add_bad_le (h : r.Arrived cs) (u : υ) : r.good cs u + r.bad cs u ≤ r.callsFor u := by
  rw [good_add_bad]
  have hsub : cs.map Completion.ticket ⊆ List.range r.plan.length := by
    intro k hk
    obtain ⟨c, hc, rfl⟩ := List.mem_map.1 hk
    exact List.mem_range.2 (h.planned c hc)
  exact (List.subperm_of_subset h.nodup hsub).countP_le _

/-- No unit has its quorum of good answers while its bad answers put the quorum out of reach. -/
theorem not_both (harr : r.Arrived cs)
    (hcov : ∀ u ∈ r.units, r.callsFor u ≤ r.policy.replication)
    (hgood : ∀ u ∈ r.units, r.policy.success ≤ r.good cs u) :
    ¬ ∃ u ∈ r.units, r.policy.failure ≤ r.bad cs u := by
  rintro ⟨u, hu, hbad⟩
  have := good_add_bad_le harr u
  have := hcov u hu
  have := hgood u hu
  have := r.policy.failure_add_success
  omega

section End

/-- Outcomes of one kind: two answers, or two failures of the same request for the same reason. -/
def SameKind : Except Failure α → Except Failure α → Prop
  | .ok _, .ok _ => True
  | .error (.quorumUnreachable operation table _), .error (.quorumUnreachable operation' table' _) =>
    operation = operation' ∧ table = table'
  | .error (.tooFewReplicas operation needed _), .error (.tooFewReplicas operation' needed' _) =>
    operation = operation' ∧ needed = needed'
  | _, _ => False

/-- What a request may come to, by the numbers of all its calls, taken or not. -/
inductive End (r : QuorumRequest κ υ τ α) (cs : List (Completion τ)) : Except Failure α → Prop where
  | answered (a : α) (hall : ∀ u ∈ r.units, r.policy.success ≤ r.good cs u) : End r cs (.ok a)
  | unreachable (cause : Failure) (hlost : ∃ u ∈ r.units, r.policy.failure ≤ r.bad cs u) :
      End r cs (.error (.quorumUnreachable r.operation r.table cause))
  | short (got : Nat) (hshort : ∃ u ∈ r.units, r.good cs u < r.policy.success)
      (hopen : ∀ u ∈ r.units, r.bad cs u < r.policy.failure) :
      End r cs (.error (.tooFewReplicas r.operation r.policy.success got))

variable {outcome outcome' : Except Failure α}

/-- The numbers are those of the same answers in any other order. -/
theorem End.of_perm {cs' : List (Completion τ)} (h : r.End cs' outcome) (hperm : cs'.Perm cs) :
    r.End cs outcome := by
  have hgood : ∀ u, r.good cs' u = r.good cs u := fun u => hperm.countP_eq _
  have hbad : ∀ u, r.bad cs' u = r.bad cs u := fun u => hperm.countP_eq _
  cases h with
  | answered a hall => exact .answered a (by simpa only [hgood] using hall)
  | unreachable cause hlost => exact .unreachable cause (by simpa only [hbad] using hlost)
  | short got hshort hopen =>
    exact .short got (by simpa only [hgood] using hshort) (by simpa only [hbad] using hopen)

theorem not_all_of_short (hshort : ∃ u ∈ r.units, r.good cs u < r.policy.success) :
    ¬ ∀ u ∈ r.units, r.policy.success ≤ r.good cs u := by
  intro hall
  obtain ⟨u, hu, hlt⟩ := hshort
  have := hall u hu
  omega

theorem not_lost_of_open (hopen : ∀ u ∈ r.units, r.bad cs u < r.policy.failure) :
    ¬ ∃ u ∈ r.units, r.policy.failure ≤ r.bad cs u := by
  rintro ⟨u, hu, hlost⟩
  have := hopen u hu
  omega

/-- **Each outcome excludes the numbers of the others.** -/
theorem End.verdict (h : r.End cs outcome)
    (hclash : (∀ u ∈ r.units, r.policy.success ≤ r.good cs u) →
      ¬ ∃ u ∈ r.units, r.policy.failure ≤ r.bad cs u) :
    ((∃ a, outcome = .ok a) ↔ ∀ u ∈ r.units, r.policy.success ≤ r.good cs u) ∧
    ((∃ cause, outcome = .error (.quorumUnreachable r.operation r.table cause)) ↔
      ∃ u ∈ r.units, r.policy.failure ≤ r.bad cs u) ∧
    ((∃ got, outcome = .error (.tooFewReplicas r.operation r.policy.success got)) ↔
      ¬ (∀ u ∈ r.units, r.policy.success ≤ r.good cs u) ∧
        ¬ ∃ u ∈ r.units, r.policy.failure ≤ r.bad cs u) := by
  cases h with
  | answered a hall =>
    refine ⟨⟨fun _ => hall, fun _ => ⟨a, rfl⟩⟩, ⟨?_, fun hlost => absurd hlost (hclash hall)⟩,
      ⟨?_, fun hnot => absurd hall hnot.1⟩⟩
    · rintro ⟨cause, hcause⟩
      cases hcause
    · rintro ⟨got, hgot⟩
      cases hgot
  | unreachable cause hlost =>
    refine ⟨⟨?_, fun hall => absurd hlost (hclash hall)⟩, ⟨fun _ => hlost, fun _ => ⟨cause, rfl⟩⟩,
      ⟨?_, fun hnot => absurd hlost hnot.2⟩⟩
    · rintro ⟨a, ha⟩
      cases ha
    · rintro ⟨got, hgot⟩
      cases hgot
  | short got hshort hopen =>
    have hall := not_all_of_short hshort
    have hlost := not_lost_of_open hopen
    refine ⟨⟨?_, fun h => absurd h hall⟩, ⟨?_, fun h => absurd h hlost⟩,
      ⟨fun _ => ⟨hall, hlost⟩, fun _ => ⟨got, rfl⟩⟩⟩
    · rintro ⟨a, ha⟩
      cases ha
    · rintro ⟨cause, hcause⟩
      cases hcause

/-- What the same numbers allow is of one kind. -/
theorem End.sameKind (h : r.End cs outcome) (h' : r.End cs outcome')
    (hclash : (∀ u ∈ r.units, r.policy.success ≤ r.good cs u) →
      ¬ ∃ u ∈ r.units, r.policy.failure ≤ r.bad cs u) : SameKind outcome outcome' := by
  cases h with
  | answered a hall =>
    cases h' with
    | answered a' => trivial
    | unreachable cause hlost => exact absurd hlost (hclash hall)
    | short got hshort => exact absurd hall (not_all_of_short hshort)
  | unreachable cause hlost =>
    cases h' with
    | answered a hall => exact absurd hlost (hclash hall)
    | unreachable cause' => exact ⟨rfl, rfl⟩
    | short got hshort hopen => exact absurd hlost (not_lost_of_open hopen)
  | short got hshort hopen =>
    cases h' with
    | answered a hall => exact absurd hall (not_all_of_short hshort)
    | unreachable cause hlost => exact absurd hlost (not_lost_of_open hopen)
    | short got' => exact ⟨rfl, rfl⟩

end End

variable [TransOrd υ] {g : Gathering υ α}

/-- Every unit of a request is judged by its own numbers. -/
theorem Follows.judged (h : r.Follows cs g) {u : υ} (hu : u ∈ r.units) :
    ∃ c, g.tally.units[u]? = some c ∧ c.Fair r.policy ∧ c.successes = r.good cs u ∧
      c.failures = r.bad cs u := by
  obtain ⟨c, hc⟩ := Option.isSome_iff_exists.1
    (ExtTreeMap.mem_iff_isSome_getElem?.1 ((h.known u).2 hu))
  obtain ⟨hs, hf⟩ := h.counts u c hc
  exact ⟨c, hc, h.policy ▸ h.coherent.fair u c hc, hs, hf⟩

theorem Follows.unit_mem (h : r.Follows cs g) {u : υ} {c : UnitCount}
    (hc : g.tally.units[u]? = some c) : u ∈ r.units :=
  (h.known u).1 (ExtTreeMap.mem_iff_isSome_getElem?.2 (by rw [hc]; rfl))

/-- A request that fails has a unit whose bad answers put its quorum out of reach. -/
theorem Follows.bad_of_failed (h : r.Follows cs g) (hf : g.tally.failed = true) :
    ∃ u ∈ r.units, r.policy.failure ≤ r.bad cs u := by
  obtain ⟨u, c, hc, hverdict⟩ := h.coherent.failed_iff.1 hf
  have hfair := h.policy ▸ h.coherent.fair u c hc
  exact ⟨u, h.unit_mem hc, (h.counts u c hc).2 ▸ hfair.failed hverdict⟩

variable [LawfulEqOrd υ]

/-- **Every unit of an answered request has its quorum of good answers.** -/
theorem Follows.good_of_answered (h : r.Follows cs g) (hfin : g.tally.finished = true)
    (hgood : g.tally.failed = false) : ∀ u ∈ r.units, r.policy.success ≤ r.good cs u := by
  intro u hu
  obtain ⟨c, hc, hfair, hs, -⟩ := h.judged hu
  have hdecided := h.coherent.finished_iff.1 hfin u c hc
  have hnot : c.verdict ≠ .failed := by
    intro hf
    exact absurd (h.coherent.failed_iff.2 ⟨u, c, hc, hf⟩) (by rw [hgood]; decide)
  cases hv : c.verdict with
  | pending => exact absurd hv hdecided
  | succeeded => exact hs ▸ hfair.succeeded hv
  | failed => exact absurd hv hnot

/-- A request that stays undecided has a unit without its quorum, and no unit out of reach. -/
theorem Follows.short_of_open (h : r.Follows cs g) (hopen : g.tally.finished = false)
    (hgood : g.tally.failed = false)
    (hreach : ∀ u ∈ r.units, r.good cs u + r.bad cs u ≤ r.policy.replication) :
    (∃ u ∈ r.units, r.good cs u < r.policy.success) ∧
      ∀ u ∈ r.units, r.bad cs u < r.policy.failure := by
  constructor
  · by_contra hall
    push Not at hall
    refine absurd (h.coherent.finished_iff.2 fun u c hc hp => ?_) (by rw [hopen]; decide)
    have hfair := h.policy ▸ h.coherent.fair u c hc
    have hlt := (hfair.pending_iff.1 hp).1
    have := hall u (h.unit_mem hc)
    rw [(h.counts u c hc).1] at hlt
    omega
  · intro u hu
    by_contra hbad
    obtain ⟨c, hc, hfair, hs, hf⟩ := h.judged hu
    have hsum := r.policy.failure_add_success
    have := hreach u hu
    cases hv : c.verdict with
    | pending => have := (hfair.pending_iff.1 hv).2; omega
    | succeeded => have := hfair.succeeded hv; omega
    | failed => exact absurd (h.coherent.failed_iff.2 ⟨u, c, hc, hv⟩) (by rw [hgood]; decide)

/-- **What a request comes to, by its numbers.** `Stop` names the three ends of the loop; each is
possible only where the numbers of all calls ask for it. -/
theorem execute_end (harr : r.Arrived cs)
    (hcov : ∀ u ∈ r.units, r.callsFor u ≤ r.policy.replication) (t : Telemetry) :
    r.End cs (r.execute t cs).1 := by
  have hstop := drain_stop (r := r) r.follows_start.coherent r.start_failed cs
  have hout : (r.execute t cs).1 = r.outcome (r.drain r.start cs).1 (r.drain r.start cs).2.2 := rfl
  rw [hout]
  generalize (r.drain r.start cs).1 = g at hstop
  generalize (r.drain r.start cs).2.2 = progress at hstop
  cases hstop with
  | answered pre post hcs hfinished hgood =>
    -- calls that are not taken only add to the good answers
    subst hcs
    have hpre := follows_takeAll harr.of_append
    refine .answered _ fun u hu => ?_
    rw [good_append]
    have := hpre.good_of_answered hfinished hgood u hu
    omega
  | unreachable pre post c cause hcs hcause hgood hfailed =>
    have hcs' : cs = (pre ++ [c]) ++ post := by rw [hcs]; simp
    subst hcs'
    obtain ⟨u, hu, hbad⟩ := (follows_takeAll harr.of_append).bad_of_failed hfailed
    refine .unreachable cause ⟨u, hu, ?_⟩
    rw [bad_append]
    omega
  | undecided hopen hgood =>
    -- every call is taken, and a unit has no more of them than it has replicas
    have hreach : ∀ u ∈ r.units, r.good cs u + r.bad cs u ≤ r.policy.replication := by
      intro u hu
      have := good_add_bad_le harr u
      have := hcov u hu
      omega
    obtain ⟨hshort, hnone⟩ := (follows_takeAll harr).short_of_open hopen hgood hreach
    exact .short _ hshort hnone

/-- **The outcome of a request does not depend on the order of its answers.** Where no unit has
more calls than it has replicas, a request is answered exactly if every unit has its quorum of good
answers, is given up exactly if the bad answers of some unit put its quorum out of reach, and lacks
replicas in the remaining cases; any other order of the same answers leads to an outcome of the
same kind. -/
theorem execute_verdict (t : Telemetry)
    (hcs : (cs.map Completion.ticket).Perm (List.range r.plan.length))
    (hcov : ∀ u ∈ r.units, r.callsFor u ≤ r.policy.replication) :
    ((∃ a, (r.execute t cs).1 = .ok a) ↔ ∀ u ∈ r.units, r.policy.success ≤ r.good cs u) ∧
    ((∃ cause, (r.execute t cs).1 = .error (.quorumUnreachable r.operation r.table cause)) ↔
      ∃ u ∈ r.units, r.policy.failure ≤ r.bad cs u) ∧
    ((∃ got, (r.execute t cs).1 = .error (.tooFewReplicas r.operation r.policy.success got)) ↔
      ¬ (∀ u ∈ r.units, r.policy.success ≤ r.good cs u) ∧
        ¬ ∃ u ∈ r.units, r.policy.failure ≤ r.bad cs u) ∧
    ∀ (t' : Telemetry) (cs' : List (Completion τ)), cs'.Perm cs →
      SameKind (r.execute t' cs').1 (r.execute t cs).1 := by
  have harr := arrived_of_all hcs
  have hclash : (∀ u ∈ r.units, r.policy.success ≤ r.good cs u) →
      ¬ ∃ u ∈ r.units, r.policy.failure ≤ r.bad cs u := not_both harr hcov
  have hend := execute_end harr hcov t
  obtain ⟨hanswered, hunreachable, hshort⟩ := hend.verdict hclash
  refine ⟨hanswered, hunreachable, hshort, fun t' cs' hperm => ?_⟩
  have hend' := (execute_end (harr.of_perm hperm) hcov t').of_perm hperm
  exact hend'.sameKind hend hclash

/-- Two units with overlapping calls: the first replica holds both, each of the others holds one. -/
def overlapping : QuorumRequest Nat Nat Unit Unit where
  operation := "put"
  table := "t"
  mode := .write
  policy := { replication := 2, success := 1, success_pos := Nat.one_pos, success_le := Nat.two_pos }
  units := [0, 1]
  plan := [("a", [0, 1]), ("b", [0]), ("c", [1])]
  unitOf := id
  call := fun _ => .close
  empty := ()
  merge := fun _ _ => ()

/-- The failure of the replica that holds both units is absorbed, in whatever order the calls
finish. -/
theorem execute_overlapping :
    ∃ a, (overlapping.execute {}
      [⟨2, "c", .ok ()⟩, ⟨0, "a", .error .timeout⟩, ⟨1, "b", .ok ()⟩]).1 = .ok a :=
  (execute_verdict {} (by decide) (by decide)).1.2 (by decide)

end QuorumRequest

end QuorumStore
