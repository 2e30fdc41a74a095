import QuorumStore.Proofs.Quorum.Gathering

/-!
# Where a request stops taking answers

Finished calls are taken one at a time until every unit has a verdict or one has failed.

* `QuorumRequest.takeAll`: the state after all of some finished calls.
* `QuorumRequest.Stop`: the three ways in which taking comes to an end, each with what holds there.
* `drain_append`: without a verdict the loop can go on with further calls.
* `drain_stop`: the loop ends in one of them.
* `follows_takeAll`: the state there is described by the calls taken.
-/

namespace QuorumStore

open Std Quorum

namespace QuorumRequest

variable {κ υ τ α : Type} [Ord υ] [TransOrd υ]

/-- The state after all of some finished calls. -/
def takeAll (r : QuorumRequest κ υ τ α) (g : Gathering υ α) (cs : List (Completion τ)) :
    Gathering υ α :=
  cs.foldl (fun g c => (r.take g c).1) g

/-- How taking the calls `cs` from the state `g` ends: with a verdict for every unit, at the
failure that puts some unit out of reach, or with no call left. -/
inductive Stop (r : QuorumRequest κ υ τ α) (g : Gathering υ α) (cs : List (Completion τ)) :
    Gathering υ α → Progress → Prop where
  | answered (pre post : List (Completion τ)) (hcs : cs = pre ++ post)
      (hfinished : (r.takeAll g pre).tally.finished = true)
      (hgood : (r.takeAll g pre).tally.failed = false) : Stop r g cs (r.takeAll g pre) .answered
  | unreachable (pre post : List (Completion τ)) (c : Completion τ) (cause : Failure)
      (hcs : cs = pre ++ c :: post) (hcause : c.result = .error cause)
      (hgood : (r.takeAll g pre).tally.failed = false)
      (hfailed : (r.takeAll g (pre ++ [c])).tally.failed = true) :
      Stop r g cs (r.takeAll g (pre ++ [c])) (.unreachable cause)
  | undecided (hopen : (r.takeAll g cs).tally.finished = false)
      (hgood : (r.takeAll g cs).tally.failed = false) : Stop r g cs (r.takeAll g cs) .undecided

variable {r : QuorumRequest κ υ τ α} {g : Gathering υ α} {c : Completion τ} {cs : List (Completion τ)}

theorem Stop.cons {g' : Gathering υ α} {progress : Progress}
    (h : r.Stop (r.take g c).1 cs g' progress) : r.Stop g (c :: cs) g' progress := by
  cases h with
  | answered pre post hcs hfinished hgood =>
    exact Stop.answered (c :: pre) post (by rw [hcs]; rfl) hfinished hgood
  | unreachable pre post d cause hcs hcause hgood hfailed =>
    exact Stop.unreachable (c :: pre) post d cause (by rw [hcs]; rfl) hcause hgood hfailed
  | undecided hopen hgood => exact Stop.undecided hopen hgood

/-- Taking finished calls goes on where it has stopped without a verdict. -/
theorem drain_append (h : (r.drain g cs).2.2 = .undecided) (ds : List (Completion τ)) :
    r.drain g (cs ++ ds) =
      ((r.drain (r.drain g cs).1 ds).1, (r.drain g cs).2.1 ++ (r.drain (r.drain g cs).1 ds).2.1,
        (r.drain (r.drain g cs).1 ds).2.2) := by
  fun_induction r.drain g cs with
  | case1 g => rfl
  | case2 g c cs hfin => cases h
  | case3 g c cs hfin g' replica e htake => cases h
  | case4 g c cs hfin g' remark hne htake g'' remarks progress hdrain ih =>
    rw [hdrain] at ih
    rw [List.cons_append, drain, if_neg hfin, htake]
    split
    · rename_i replica e heq
      obtain ⟨rfl, rfl⟩ := Prod.mk.inj heq
      exact (hne replica e rfl).elim
    · rename_i heq
      obtain ⟨rfl, rfl⟩ := Prod.mk.inj heq
      rw [ih h, List.append_assoc]

variable [LawfulEqOrd υ]

theorem take_coherent (h : g.tally.Coherent) (c : Completion τ) :
    (r.take g c).1.tally.Coherent := by
  unfold take
  split
  · exact h
  · split
    · exact h.resolve _ _
    · exact h.resolve _ _

/-- What taking a call notes says whether it failed some unit. -/
theorem take_failed (h : g.tally.Coherent) (hgood : g.tally.failed = false) (c : Completion τ) :
    (∃ cause, c.result = .error cause ∧ (r.take g c).2 = some (.decisive c.replica cause) ∧
      (r.take g c).1.tally.failed = true) ∨
    ((∀ replica cause, (r.take g c).2 ≠ some (.decisive replica cause)) ∧
      (r.take g c).1.tally.failed = false) := by
  by_cases hout : g.tally.isOutstanding c.ticket = true
  · rw [take_remark hout, take_state hout]
    cases hres : c.result with
    | ok part =>
      refine Or.inr ⟨by simp, ?_⟩
      by_contra hf
      rw [Bool.not_eq_false] at hf
      exact absurd (Tally.failed_of_resolve_success h hf) (by rw [hgood]; decide)
    | error cause =>
      by_cases hf : (g.tally.resolve c.ticket false).failed = true
      · exact Or.inl ⟨cause, rfl, by simp [Except.isOk, Except.toBool, hf], hf⟩
      · exact Or.inr ⟨by simp [Except.isOk, Except.toBool, hf], eq_false_of_ne_true hf⟩
  · have hsame : r.take g c = (g, none) := by
      unfold take
      rw [if_pos (by simpa using hout)]
    rw [hsame]
    exact Or.inr ⟨by simp, hgood⟩

/-- **Taking calls ends in one of the three ways.** -/
theorem drain_stop (h : g.tally.Coherent) (hgood : g.tally.failed = false)
    (cs : List (Completion τ)) : r.Stop g cs (r.drain g cs).1 (r.drain g cs).2.2 := by
  induction cs generalizing g with
  | nil =>
    unfold drain
    split
    · rename_i hfin
      exact Stop.answered [] [] rfl hfin hgood
    · rename_i hfin
      exact Stop.undecided (eq_false_of_ne_true hfin) hgood
  | cons c cs ih =>
    unfold drain
    split
    · rename_i hfin
      exact Stop.answered [] (c :: cs) rfl hfin hgood
    · rcases take_failed (r := r) h hgood c with ⟨cause, hcause, hremark, hf⟩ | ⟨hremark, hf⟩
      · have hpair : r.take g c = ((r.take g c).1, some (.decisive c.replica cause)) := by
          rw [← hremark]
        rw [hpair]
        exact Stop.unreachable [] cs c cause rfl hcause hgood hf
      · have := (ih (take_coherent h c) hf).cons
        split
        · rename_i g' replica e heq
          exact absurd (by rw [heq]) (hremark replica e)
        · rename_i g' remark hne heq
          rw [heq] at this
          exact this

/-- The state once the calls `cs` have finished. -/
theorem Follows.takeAll {cs ds : List (Completion τ)} (h : r.Follows cs g)
    (harr : r.Arrived (cs ++ ds)) : r.Follows (cs ++ ds) (r.takeAll g ds) := by
  induction ds generalizing cs g with
  | nil => rw [List.append_nil]; exact h
  | cons d ds ih =>
    have hplan := harr.planned d (by simp)
    have harr' : r.Arrived (cs ++ [d] ++ ds) := by rwa [List.append_assoc]
    have := ih (h.take hplan harr.fresh) harr'
    rwa [List.append_assoc] at this

theorem follows_takeAll (harr : r.Arrived cs) : r.Follows cs (r.takeAll r.start cs) := by
  have h : r.Follows ([] ++ cs) (r.takeAll r.start cs) := r.follows_start.takeAll harr
  exact h

/-- Nothing has failed before any call has finished. -/
theorem start_failed (r : QuorumRequest κ υ τ α) : r.start.tally.failed = false := by
  by_contra hf
  obtain ⟨u, c, hc, hverdict⟩ := r.follows_start.coherent.failed_iff.1 (by simpa using hf)
  have hfair := r.follows_start.coherent.fair u c hc
  have hreached := hfair.failed hverdict
  have hnone : c.failures = 0 := (r.follows_start.counts u c hc).2
  have := r.start.tally.policy.failure_add_success
  have := r.start.tally.policy.success_le
  omega

end QuorumRequest

end QuorumStore
