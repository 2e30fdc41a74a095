import Mathlib.Data.List.Induction
import QuorumStore.Proofs.Quorum.Tally

/-!
# What a tally recalls of its history

A tally is told of calls that are sent out, of calls that resolve, and of the end of counting. What
it keeps is at every moment a function of that history: a unit's numbers are those of the answers
it was given, and its verdict is that of the threshold which was crossed first.

* `Tally.answers`: the answers of a unit, read off the history alone.
* `Policy.Decides`: the verdict that a list of answers leads to, by the first threshold crossed.
* `UnitCount.Tells.credit`: one more answer.
* `Tally.Recalls.apply`: one more call of any kind.
* `Tally.recounts_run`: **after every history the tally is a recount of it.**
-/

namespace QuorumStore.Quorum

open Std

/-- A verdict is given by the first threshold that the answers, taken in turn, have crossed. -/
def Policy.Decides (p : Policy) (answers : List Bool) : Verdict → Prop
  | .pending => answers.count true < p.success ∧ answers.count false < p.failure
  | .succeeded => ∃ front, front <+: answers ∧
      front.count true = p.success ∧ front.count false < p.failure
  | .failed => ∃ front, front <+: answers ∧
      front.count false = p.failure ∧ front.count true < p.success

namespace Policy

variable {p : Policy} {answers : List Bool} {v v' : Verdict}

theorem Decides.append (h : p.Decides answers v) (hv : v ≠ .pending) (more : List Bool) :
    p.Decides (answers ++ more) v := by
  cases v with
  | pending => exact absurd rfl hv
  | succeeded =>
    obtain ⟨front, hfront, hcount⟩ := h
    exact ⟨front, hfront.trans (List.prefix_append answers more), hcount⟩
  | failed =>
    obtain ⟨front, hfront, hcount⟩ := h
    exact ⟨front, hfront.trans (List.prefix_append answers more), hcount⟩

/-- Of two fronts one is the longer, so only one threshold is crossed first. -/
theorem not_succeeded_and_failed (hs : p.Decides answers .succeeded)
    (hf : p.Decides answers .failed) : False := by
  obtain ⟨front, hfront, htrue, hfalse⟩ := hs
  obtain ⟨front', hfront', hfalse', htrue'⟩ := hf
  rcases List.prefix_or_prefix_of_prefix hfront hfront' with h | h
  · have hle := h.sublist.count_le true
    omega
  · have hle := h.sublist.count_le false
    omega

theorem not_pending_of_crossed (h : p.Decides answers v) (hv : v ≠ .pending) :
    ¬ p.Decides answers .pending := by
  intro hopen
  obtain ⟨htrue, hfalse⟩ := hopen
  cases v with
  | pending => exact hv rfl
  | succeeded =>
    obtain ⟨front, hfront, hcount, -⟩ := h
    have hle := hfront.sublist.count_le true
    omega
  | failed =>
    obtain ⟨front, hfront, hcount, -⟩ := h
    have hle := hfront.sublist.count_le false
    omega

/-- **Answers lead to one verdict.** -/
theorem Decides.unique (h : p.Decides answers v) (h' : p.Decides answers v') : v = v' := by
  cases v with
  | pending =>
    by_contra hne
    exact not_pending_of_crossed h' (Ne.symm hne) h
  | succeeded =>
    cases v' with
    | pending => exact absurd h' (not_pending_of_crossed h (by decide))
    | succeeded => rfl
    | failed => exact absurd h' (not_succeeded_and_failed h)
  | failed =>
    cases v' with
    | pending => exact absurd h' (not_pending_of_crossed h (by decide))
    | succeeded => exact absurd h (not_succeeded_and_failed h')
    | failed => rfl

end Policy

/-- The numbers of a unit are those of its answers, and its verdict is the one they lead to. -/
structure UnitCount.Tells (p : Policy) (answers : List Bool) (c : UnitCount) : Prop where
  successes : c.successes = answers.count true
  failures : c.failures = answers.count false
  verdict : p.Decides answers c.verdict

namespace UnitCount

variable {p : Policy} {answers : List Bool} {c : UnitCount}

theorem tells_empty (p : Policy) : Tells p [] {} := by
  have hs := p.success_pos
  have hf : 0 < p.failure := by unfold Policy.failure; omega
  refine ⟨rfl, rfl, ?_⟩
  simp only [Policy.Decides, List.count_nil]
  omega

/-- **One more answer.** A unit without a verdict is exactly one answer short of the threshold that
the answer makes it cross. -/
theorem Tells.credit (h : Tells p answers c) (success : Bool) :
    Tells p (answers ++ [success]) (c.credit p success) := by
  have hs' : (answers ++ [success]).count true = answers.count true + if success then 1 else 0 := by
    rw [List.count_append]
    cases success <;> rfl
  have hf' : (answers ++ [success]).count false = answers.count false + if success then 0 else 1 := by
    rw [List.count_append]
    cases success <;> rfl
  have hs : (c.credit p success).successes = (answers ++ [success]).count true := by
    rw [credit_successes, h.successes, hs']
  have hf : (c.credit p success).failures = (answers ++ [success]).count false := by
    rw [credit_failures, h.failures, hf']
  refine ⟨hs, hf, ?_⟩
  have hverdict := h.verdict
  by_cases hp : c.verdict = .pending
  · -- both numbers were below their thresholds and one of them grows by one, so a threshold that is
    -- reached now is met exactly, and the answers until now are the front that crosses it
    rw [hp] at hverdict
    obtain ⟨htrue, hfalse⟩ := hverdict
    have hstep := credit_verdict p c success
    rw [if_pos hp] at hstep
    unfold judge at hstep
    rw [hs, hf] at hstep
    have hcounts : (answers ++ [success]).count true + (answers ++ [success]).count false =
        answers.count true + answers.count false + 1 := by
      rw [hs', hf']
      split <;> omega
    have hmore : answers.count true ≤ (answers ++ [success]).count true ∧
        answers.count false ≤ (answers ++ [success]).count false := by
      rw [hs', hf']
      exact ⟨Nat.le_add_right _ _, Nat.le_add_right _ _⟩
    split at hstep
    · rw [hstep]
      exact ⟨_, List.prefix_refl _, by omega, by omega⟩
    · split at hstep
      · rw [hstep]
        exact ⟨_, List.prefix_refl _, by omega, by omega⟩
      · rw [hstep]
        exact ⟨by omega, by omega⟩
  · rw [credit_verdict_of_decided success hp]
    exact hverdict.append hp [success]

end UnitCount

namespace Tally

/-- What a tally is told. -/
inductive Call (η υ : Type) where
  | register (handle : η) (units : List υ)
  | resolve (handle : η) (success : Bool)
  | cancel (interrupt : Bool)

variable {η υ : Type}

def Call.isCancel : Call η υ → Bool
  | .cancel _ => true
  | _ => false

section Recount

variable [DecidableEq η]

/-- The units of a handle after another call: a registration replaces them, its resolution leaves
it without any. -/
def afterCall (handle : η) (held : List υ) : Call η υ → List υ
  | .register h units => if h = handle then units else held
  | .resolve h _ => if h = handle then [] else held
  | .cancel _ => held

/-- The units that a handle is registered to. -/
def registered (history : List (Call η υ)) (handle : η) : List υ :=
  history.foldl (afterCall handle) []

theorem registered_snoc (history : List (Call η υ)) (call : Call η υ) (handle : η) :
    registered (history ++ [call]) handle = afterCall handle (registered history handle) call := by
  unfold registered
  rw [List.foldl_append, List.foldl_cons, List.foldl_nil]

variable [DecidableEq υ]

/-- The answer that a call brings to a unit: the outcome of a handle registered to it, as long as
counting has not ended. -/
def answer (unit : υ) (history : List (Call η υ)) : Call η υ → Option Bool
  | .resolve handle success =>
    if history.any Call.isCancel = false ∧ unit ∈ registered history handle then some success
    else none
  | _ => none

/-- The answers that calls bring to a unit, after those of a history. -/
def answersAfter (unit : υ) : List (Call η υ) → List (Call η υ) → List Bool
  | _, [] => []
  | history, call :: calls =>
    (answer unit history call).toList ++ answersAfter unit (history ++ [call]) calls

/-- All answers of a unit, in turn. -/
def answers (history : List (Call η υ)) (unit : υ) : List Bool := answersAfter unit [] history

theorem answersAfter_snoc (unit : υ) (history calls : List (Call η υ)) (call : Call η υ) :
    answersAfter unit history (calls ++ [call]) =
      answersAfter unit history calls ++ (answer unit (history ++ calls) call).toList := by
  induction calls generalizing history with
  | nil => simp [answersAfter]
  | cons first calls ih =>
    rw [List.cons_append, answersAfter, answersAfter, ih, List.append_assoc, List.append_assoc,
      List.singleton_append]

theorem answers_snoc (history : List (Call η υ)) (call : Call η υ) (unit : υ) :
    answers (history ++ [call]) unit = answers history unit ++ (answer unit history call).toList :=
  answersAfter_snoc unit [] history call

/-- After more calls a unit has the answers it had, and maybe more. -/
theorem answers_prefix (history later : List (Call η υ)) (unit : υ) :
    answers history unit <+: answers (history ++ later) unit := by
  induction later using List.reverseRecOn with
  | nil => simp
  | append_singleton later call ih =>
    rw [← List.append_assoc, answers_snoc]
    exact ih.trans (List.prefix_append _ _)

end Recount

variable [Ord η] [TransOrd η] [Ord υ] [TransOrd υ]

def apply (t : Tally η υ) : Call η υ → Tally η υ
  | .register handle units => t.register handle units
  | .resolve handle success => t.resolve handle success
  | .cancel interrupt => (t.cancel interrupt).2

/-- The tally after a history. -/
def run (units : List υ) (policy : Policy) (history : List (Call η υ)) : Tally η υ :=
  history.foldl apply (ofUnits units policy)

theorem run_append (units : List υ) (policy : Policy) (history later : List (Call η υ)) :
    run units policy (history ++ later) = later.foldl apply (run units policy history) := by
  unfold run
  rw [List.foldl_append]

/-- After the end of counting calls may still be registered, but nothing is counted. -/
theorem apply_of_cancelled {t : Tally η υ} (h : t.cancelled = true) (call : Call η υ) :
    (t.apply call).cancelled = true ∧ (t.apply call).units = t.units ∧
      (t.apply call).undecided = t.undecided ∧ (t.apply call).failed = t.failed := by
  cases call with
  | register handle units => exact ⟨h, rfl, rfl, rfl⟩
  | resolve handle success =>
    have hsame : t.apply (.resolve handle success) = t := if_pos h
    rw [hsame]
    exact ⟨h, rfl, rfl, rfl⟩
  | cancel interrupt =>
    unfold apply cancel
    cases interrupt <;> exact ⟨rfl, rfl, rfl, rfl⟩

theorem foldl_apply_of_cancelled {t : Tally η υ} (h : t.cancelled = true)
    (later : List (Call η υ)) :
    (later.foldl apply t).units = t.units ∧ (later.foldl apply t).undecided = t.undecided ∧
      (later.foldl apply t).failed = t.failed := by
  induction later generalizing t with
  | nil => exact ⟨rfl, rfl, rfl⟩
  | cons call later ih =>
    obtain ⟨hcancelled, hunits, hundecided, hfailed⟩ := apply_of_cancelled h call
    obtain ⟨hunits', hundecided', hfailed'⟩ := ih hcancelled
    rw [List.foldl_cons]
    exact ⟨hunits'.trans hunits, hundecided'.trans hundecided, hfailed'.trans hfailed⟩

variable [DecidableEq η] [DecidableEq υ]

/-- What a tally keeps is what its history comes to. -/
structure Recalls (units : List υ) (policy : Policy) (history : List (Call η υ))
    (t : Tally η υ) : Prop where
  policy_eq : t.policy = policy
  coherent : t.Coherent
  cancelled : t.cancelled = history.any Call.isCancel
  /-- As long as it counts, a handle covers the units that it is registered to. -/
  covers : t.cancelled = false → ∀ handle, ∀ u ∈ units,
    (∃ covered, t.calls[handle]? = some covered ∧ u ∈ covered) ↔ u ∈ registered history handle
  known : ∀ u, u ∈ t.units ↔ u ∈ units
  tells : ∀ (u : υ) (c : UnitCount), t.units[u]? = some c → c.Tells policy (answers history u)

variable {units : List υ} {policy : Policy} {history : List (Call η υ)} {t : Tally η υ}

theorem Recalls.mem (h : Recalls units policy history t) {u : υ} {c : UnitCount}
    (hc : t.units[u]? = some c) : u ∈ units := by
  rw [← h.known, ExtTreeMap.mem_iff_isSome_getElem?, hc]
  rfl

theorem Recalls.tells_of_silent (h : Recalls units policy history t) {call : Call η υ}
    (hsilent : ∀ u ∈ units, answer u history call = none) (u : υ) (c : UnitCount)
    (hc : t.units[u]? = some c) : c.Tells policy (answers (history ++ [call]) u) := by
  rw [answers_snoc, hsilent u (h.mem hc), Option.toList_none, List.append_nil]
  exact h.tells u c hc

theorem Recalls.cancel (h : Recalls units policy history t) (interrupt : Bool) :
    Recalls units policy (history ++ [.cancel interrupt]) (t.cancel interrupt).2 := by
  have hcancelled : (history ++ [Call.cancel interrupt]).any Call.isCancel = true := by
    simp [Call.isCancel]
  have hended : (t.cancel interrupt).2.cancelled = true := by
    cases interrupt <;> rfl
  have hcoherent : (t.cancel interrupt).2.Coherent := by
    cases interrupt <;> exact ⟨h.coherent.undecided_eq, h.coherent.failed_iff, h.coherent.fair⟩
  have hunits : (t.cancel interrupt).2.units = t.units := by
    cases interrupt <;> rfl
  have hpolicy : (t.cancel interrupt).2.policy = t.policy := by
    cases interrupt <;> rfl
  refine ⟨hpolicy.trans h.policy_eq, hcoherent, hended.trans hcancelled.symm, ?_, ?_, ?_⟩
  · intro hrun
    rw [hended] at hrun
    cases hrun
  · rw [hunits]
    exact h.known
  · rw [hunits]
    exact h.tells_of_silent fun u _ => rfl

/-- A call that was not registered, or no longer counts, changes nothing. -/
theorem Recalls.resolve_unknown (h : Recalls units policy history t) {handle : η}
    (hunknown : t.cancelled = true ∨ t.calls[handle]? = none) (success : Bool) :
    Recalls units policy (history ++ [.resolve handle success]) (t.resolve handle success) := by
  have hsame : t.resolve handle success = t := by
    unfold Tally.resolve
    rcases hunknown with hended | hnone
    · rw [if_pos hended]
    · rw [hnone]
      exact ite_self t
  -- a handle that is not on its way is registered to no unit of the request
  have hsilent : ∀ u ∈ units, answer u history (.resolve handle success) = none := by
    intro u hu
    refine if_neg ?_
    rintro ⟨hrun, hmem⟩
    rw [← h.cancelled] at hrun
    rcases hunknown with hended | hnone
    · rw [hended] at hrun
      cases hrun
    · obtain ⟨covered, hcovered, -⟩ := (h.covers hrun handle u hu).2 hmem
      rw [hnone] at hcovered
      cases hcovered
  rw [hsame]
  refine ⟨h.policy_eq, h.coherent, ?_, ?_, h.known, ?_⟩
  · simp [h.cancelled, Call.isCancel]
  · intro hrun other u hu
    rw [registered_snoc, h.covers hrun other u hu]
    simp only [afterCall]
    split
    · rename_i heq
      subst heq
      have hnone : t.calls[handle]? = none := by
        rcases hunknown with hended | hnone
        · rw [hended] at hrun
          cases hrun
        · exact hnone
      rw [← h.covers hrun handle u hu, hnone]
      simp
    · exact Iff.rfl
  · exact h.tells_of_silent hsilent

section Lawful

variable [LawfulEqOrd υ]

theorem recalls_ofUnits (units : List υ) (policy : Policy) :
    Recalls units policy [] (ofUnits units policy : Tally η υ) := by
  refine ⟨rfl, coherent_ofUnits units policy, rfl, ?_, ?_, ?_⟩
  · intro _ handle u _
    simp [ofUnits, registered]
  · intro u
    rw [ExtTreeMap.mem_iff_isSome_getElem?, Option.isSome_iff_exists]
    simp [getElem?_ofUnits]
  · intro u c hc
    rw [(getElem?_ofUnits.1 hc).2]
    exact UnitCount.tells_empty policy

theorem Recalls.register [LawfulEqOrd η] (h : Recalls units policy history t) (handle : η)
    (carried : List υ) :
    Recalls units policy (history ++ [.register handle carried]) (t.register handle carried) := by
  refine ⟨h.policy_eq, ⟨h.coherent.undecided_eq, h.coherent.failed_iff, h.coherent.fair⟩, ?_, ?_,
    h.known, ?_⟩
  · simp [Tally.register, h.cancelled, Call.isCancel]
  · intro hrun other u hu
    have hold := h.covers hrun other u hu
    rw [registered_snoc]
    simp only [Tally.register, afterCall, ExtTreeMap.getElem?_insert, LawfulEqOrd.compare_eq_iff_eq]
    split
    · simp only [Option.some.injEq, exists_eq_left', mem_setOfList, List.mem_filter,
        ExtTreeMap.contains_iff_mem, h.known, hu, and_true]
    · exact hold
  · exact h.tells_of_silent fun u _ => rfl

/-- A call that counts brings its outcome to the units that its handle is registered to. -/
theorem Recalls.resolve_known [LawfulEqOrd η] (h : Recalls units policy history t) {handle : η}
    {covered : ExtTreeSet υ} (hrun : t.cancelled = false) (hcall : t.calls[handle]? = some covered)
    (success : Bool) :
    Recalls units policy (history ++ [.resolve handle success]) (t.resolve handle success) := by
  obtain ⟨hpolicy, hcalls, hcancelled⟩ := resolve_frame success hrun hcall
  have hquiet : history.any Call.isCancel = false := by
    rw [← h.cancelled]
    exact hrun
  have hcovers : ∀ u ∈ units, u ∈ covered ↔ u ∈ registered history handle := by
    intro u hu
    rw [← h.covers hrun handle u hu, hcall]
    simp
  have hunits := getElem?_resolve success hrun hcall
  refine ⟨hpolicy.trans h.policy_eq, h.coherent.resolve handle success, ?_, ?_, ?_, ?_⟩
  · rw [hcancelled, List.any_append, hquiet]
    rfl
  · intro _ other u hu
    rw [hcalls, registered_snoc, ExtTreeMap.getElem?_erase]
    simp only [afterCall, LawfulEqOrd.compare_eq_iff_eq]
    split
    · simp
    · exact h.covers hrun other u hu
  · intro u
    rw [← h.known u, ExtTreeMap.mem_iff_isSome_getElem?, ExtTreeMap.mem_iff_isSome_getElem?,
      hunits u]
    split
    · rw [Option.isSome_map]
    · exact Iff.rfl
  · intro u c hc
    rw [hunits u] at hc
    rw [answers_snoc]
    by_cases hmem : u ∈ covered
    · rw [if_pos hmem] at hc
      obtain ⟨old, hold, rfl⟩ := Option.map_eq_some_iff.1 hc
      have hanswer : answer u history (.resolve handle success) = some success :=
        if_pos ⟨hquiet, (hcovers u (h.mem hold)).1 hmem⟩
      rw [hanswer, h.policy_eq]
      exact (h.tells u old hold).credit success
    · rw [if_neg hmem] at hc
      have hanswer : answer u history (.resolve handle success) = none :=
        if_neg fun hcond => hmem ((hcovers u (h.mem hc)).2 hcond.2)
      rw [hanswer, Option.toList_none, List.append_nil]
      exact h.tells u c hc

variable [LawfulEqOrd η]

/-- **Every call keeps a tally in step with its history.** -/
theorem Recalls.apply (h : Recalls units policy history t) (call : Call η υ) :
    Recalls units policy (history ++ [call]) (t.apply call) := by
  cases call with
  | register handle carried => exact h.register handle carried
  | cancel interrupt => exact h.cancel interrupt
  | resolve handle success =>
    cases hcall : t.calls[handle]? with
    | none => exact h.resolve_unknown (Or.inr hcall) success
    | some covered =>
      by_cases hrun : t.cancelled = true
      · exact h.resolve_unknown (Or.inl hrun) success
      · exact h.resolve_known (eq_false_of_ne_true hrun) hcall success

theorem recalls_run (units : List υ) (policy : Policy) (history : List (Call η υ)) :
    Recalls units policy history (run units policy history) := by
  induction history using List.reverseRecOn with
  | nil => exact recalls_ofUnits units policy
  | append_singleton history call ih =>
    rw [run_append]
    exact ih.apply call

end Lawful

/-- A tally in the middle of a resolution: the answer has reached some of the units. -/
def midway (t : Tally η υ) (handle : η) (success : Bool) (front : List υ) : Tally η υ :=
  front.foldl (creditUnit success) { t with calls := t.calls.erase handle }

/-- The tally is the recount of a history, and says so in each of its views. -/
structure Recounts (units : List υ) (policy : Policy) (history : List (Call η υ))
    (t : Tally η υ) : Prop where
  seeded : ∀ u, u ∈ t.units ↔ u ∈ units
  /-- The numbers of a unit are those of its answers, and the first threshold that they crossed
  gave its verdict. -/
  counted : ∀ (u : υ) (c : UnitCount), t.units[u]? = some c → c.Tells policy (answers history u)
  /-- A verdict never changes. -/
  settled : ∀ (later : List (Call η υ)) (u : υ) (c : UnitCount), t.units[u]? = some c →
    c.verdict ≠ .pending →
    ∃ c', (later.foldl apply t).units[u]? = some c' ∧ c'.verdict = c.verdict
  finished_iff : t.finished = true ↔
    ∀ u ∈ units, ∃ c, t.units[u]? = some c ∧ c.verdict ≠ .pending
  failed_iff : t.failed = true ↔
    ∃ u ∈ units, ∃ c, t.units[u]? = some c ∧ c.verdict = .failed
  undecided_eq : t.undecided = t.pending.size
  /-- Wherever a verdict can be given, some unit is counted as undecided: the units of a call may
  come in any order. -/
  no_underflow : ∀ (handle : η) (success : Bool) (front : List υ) (u : υ) (c : UnitCount),
    (t.midway handle success front).units[u]? = some c → c.verdict = .pending →
    0 < (t.midway handle success front).undecided
  /-- Nothing is counted after the end. -/
  final : history.any Call.isCancel = true → ∀ later : List (Call η υ),
    (later.foldl apply t).units = t.units ∧ (later.foldl apply t).finished = t.finished ∧
      (later.foldl apply t).failed = t.failed

variable [LawfulEqOrd υ] [LawfulEqOrd η]

/-- A verdict that some answers led to is the one that all later answers lead to. -/
theorem verdict_settled (units : List υ) (policy : Policy) (history later : List (Call η υ))
    {u : υ} {c : UnitCount} (hc : (run units policy history).units[u]? = some c)
    (hdecided : c.verdict ≠ .pending) :
    ∃ c', (run units policy (history ++ later)).units[u]? = some c' ∧ c'.verdict = c.verdict := by
  have hnow := recalls_run units policy history
  have hthen := recalls_run units policy (history ++ later)
  have hu : u ∈ (run units policy (history ++ later)).units := by
    rw [hthen.known, ← hnow.known]
    exact ExtTreeMap.mem_iff_isSome_getElem?.2 (by simp [hc])
  obtain ⟨c', hc'⟩ := Option.isSome_iff_exists.1 (ExtTreeMap.mem_iff_isSome_getElem?.1 hu)
  refine ⟨c', hc', ?_⟩
  -- the front that gave the verdict is still a front of the longer list of answers
  obtain ⟨more, hmore⟩ := answers_prefix history later u
  have hold := (hnow.tells u c hc).verdict.append hdecided more
  rw [hmore] at hold
  exact (hthen.tells u c' hc').verdict.unique hold

/-- **After every history the tally is a recount of it.** -/
theorem recounts_run (units : List υ) (policy : Policy) (history : List (Call η υ)) :
    Recounts units policy history (run units policy history) := by
  have h := recalls_run units policy history
  refine ⟨h.known, h.tells, ?_, ?_, ?_, h.coherent.undecided_eq, ?_, ?_⟩
  · intro later u c hc hdecided
    rw [← run_append]
    exact verdict_settled units policy history later hc hdecided
  · rw [h.coherent.finished_iff]
    constructor
    · intro hall u hu
      obtain ⟨c, hc⟩ := Option.isSome_iff_exists.1
        (ExtTreeMap.mem_iff_isSome_getElem?.1 ((h.known u).2 hu))
      exact ⟨c, hc, hall u c hc⟩
    · intro hall u c hc
      obtain ⟨c', hc', hdecided⟩ := hall u (h.mem hc)
      obtain rfl : c = c' := Option.some.inj (hc.symm.trans hc')
      exact hdecided
  · rw [h.coherent.failed_iff]
    constructor
    · rintro ⟨u, c, hc, hfail⟩
      exact ⟨u, h.mem hc, c, hc, hfail⟩
    · rintro ⟨u, -, c, hc, hfail⟩
      exact ⟨u, c, hc, hfail⟩
  · -- the tally stays coherent from unit to unit, in whatever order they are credited
    intro handle success front u c hc hopen
    have hbegun : ({ run units policy history with
        calls := (run units policy history).calls.erase handle } : Tally η υ).Coherent :=
      ⟨h.coherent.undecided_eq, h.coherent.failed_iff, h.coherent.fair⟩
    exact (hbegun.credit_each success front).undecided_pos hc hopen
  · intro hended later
    rw [← h.cancelled] at hended
    obtain ⟨hunits, hundecided, hfailed⟩ := foldl_apply_of_cancelled hended later
    refine ⟨hunits, ?_, hfailed⟩
    unfold finished
    rw [hundecided]

/-- A call that has resolved, one that was never registered and one after the end bring no answer. -/
theorem recounts_lateFailure :
    let history : List (Call Nat Nat) := [.register 0 [7, 7, 8], .register 1 [7, 9],
      .register 2 [7], .resolve 0 true, .resolve 0 true, .resolve 5 false, .resolve 1 true,
      .resolve 2 false, .register 3 [7], .cancel false, .resolve 3 false]
    answers history 7 = [true, true, false] ∧
      ∀ policy, Recounts [7, 8, 7] policy history (run [7, 8, 7] policy history) := by
  intro history
  refine ⟨?_, fun policy => recounts_run [7, 8, 7] policy history⟩
  decide

end Tally

end QuorumStore.Quorum
