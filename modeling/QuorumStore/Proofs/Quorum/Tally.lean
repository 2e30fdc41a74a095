import Mathlib.Tactic.ByContra
import QuorumStore.Proofs.OrderedMap
import QuorumStore.Quorum.Tally

/-!
# What a count knows of its units

A tally keeps the same knowledge several times: the numbers of each unit, its verdict, the number
of units without one, and whether some unit failed. These lemmas say how one answer moves all of
them at once.

* `UnitCount.Fair`: a verdict is given exactly when a threshold is reached.
* `Tally.Coherent`: the number of undecided units and the failure flag are those of the units.
* `getElem?_resolve`: an answer credits exactly the units of its call.
* `Coherent.resolve`: every answer keeps a count coherent.
-/

namespace QuorumStore.Quorum

open Std

namespace UnitCount

variable {p : Policy} {c : UnitCount}

/-- A verdict is there exactly when a threshold is reached, and is that of a reached threshold. -/
structure Fair (p : Policy) (c : UnitCount) : Prop where
  pending_iff : c.verdict = .pending ↔ c.successes < p.success ∧ c.failures < p.failure
  succeeded : c.verdict = .succeeded → p.success ≤ c.successes
  failed : c.verdict = .failed → p.failure ≤ c.failures

@[simp]
theorem credit_successes (p : Policy) (c : UnitCount) (success : Bool) :
    (c.credit p success).successes = c.successes + (if success then 1 else 0) := by
  unfold credit add
  cases success <;> simp <;> split <;> rfl

@[simp]
theorem credit_failures (p : Policy) (c : UnitCount) (success : Bool) :
    (c.credit p success).failures = c.failures + (if success then 0 else 1) := by
  unfold credit add
  cases success <;> simp <;> split <;> rfl

theorem credit_verdict (p : Policy) (c : UnitCount) (success : Bool) :
    (c.credit p success).verdict =
      if c.verdict = .pending then (c.credit p success).judge p else c.verdict := by
  unfold credit add judge
  cases success <;> by_cases h : c.verdict = .pending <;> simp [h]

/-- A verdict stays. -/
theorem credit_verdict_of_decided (success : Bool) (h : c.verdict ≠ .pending) :
    (c.credit p success).verdict = c.verdict := by
  rw [credit_verdict, if_neg h]

theorem fair_empty (p : Policy) : Fair p {} := by
  have hs := p.success_pos
  have hf : 1 ≤ p.failure := by unfold Policy.failure; omega
  exact ⟨by simp; omega, by simp, by simp⟩

/-- One more answer keeps a unit's verdict in step with its numbers. -/
theorem Fair.credit (h : Fair p c) (success : Bool) : Fair p (c.credit p success) := by
  have hs := credit_successes p c success
  have hf := credit_failures p c success
  have hv := credit_verdict p c success
  by_cases hp : c.verdict = .pending
  · rw [if_pos hp] at hv
    unfold judge at hv
    split at hv
    · exact ⟨by rw [hv]; simp; omega, by intro; assumption, by rw [hv]; simp⟩
    · split at hv
      · exact ⟨by rw [hv]; simp; omega, by rw [hv]; simp, by intro; assumption⟩
      · exact ⟨by rw [hv]; simp; omega, by rw [hv]; simp, by rw [hv]; simp⟩
  · -- a verdict is final, and the numbers only grow
    rw [if_neg hp] at hv
    have hreached : ¬ (c.successes < p.success ∧ c.failures < p.failure) :=
      fun hlt => hp (h.pending_iff.2 hlt)
    refine ⟨?_, ?_, ?_⟩
    · rw [hv]
      exact ⟨fun hc => absurd hc hp, fun hlt => absurd ⟨by omega, by omega⟩ hreached⟩
    · intro hsucc
      have := h.succeeded (hv ▸ hsucc)
      omega
    · intro hfail
      have := h.failed (hv ▸ hfail)
      omega

/-- A good answer fails no unit: without a verdict its failures were below the threshold. -/
theorem Fair.failed_of_credit (h : Fair p c) (hf : (c.credit p true).verdict = .failed) :
    c.verdict = .failed := by
  by_cases hp : c.verdict = .pending
  · have hbelow := (h.pending_iff.1 hp).2
    have hreached := (h.credit true).failed hf
    rw [credit_failures, if_pos rfl] at hreached
    omega
  · rwa [credit_verdict_of_decided true hp] at hf

end UnitCount

namespace Tally

variable {η υ : Type} [Ord η] [Ord υ] [TransOrd υ]

/-- An answer to a unit changes neither the thresholds nor the calls on their way. -/
theorem creditUnit_frame (success : Bool) (t : Tally η υ) (unit : υ) :
    (creditUnit success t unit).policy = t.policy ∧ (creditUnit success t unit).calls = t.calls ∧
      (creditUnit success t unit).cancelled = t.cancelled := by
  unfold creditUnit; split
  · exact ⟨rfl, rfl, rfl⟩
  · simp only; split <;> exact ⟨rfl, rfl, rfl⟩

theorem foldl_creditUnit_frame (success : Bool) (covered : List υ) (t : Tally η υ) :
    (covered.foldl (creditUnit success) t).policy = t.policy ∧
      (covered.foldl (creditUnit success) t).calls = t.calls ∧
      (covered.foldl (creditUnit success) t).cancelled = t.cancelled := by
  induction covered generalizing t with
  | nil => exact ⟨rfl, rfl, rfl⟩
  | cons u rest ih =>
    obtain ⟨h1, h2, h3⟩ := creditUnit_frame success t u
    obtain ⟨i1, i2, i3⟩ := ih (creditUnit success t u)
    exact ⟨i1.trans h1, i2.trans h2, i3.trans h3⟩

theorem resolve_eq [TransOrd η] {t : Tally η υ} {handle : η} {covered : ExtTreeSet υ} (success : Bool)
    (hrun : t.cancelled = false) (hcall : t.calls[handle]? = some covered) :
    t.resolve handle success =
      covered.toList.foldl (creditUnit success) { t with calls := t.calls.erase handle } := by
  unfold resolve
  rw [if_neg (by rw [hrun]; decide), hcall]

/-- A resolved call is no longer on its way; nothing else about the calls changes. -/
theorem resolve_frame [TransOrd η] {t : Tally η υ} {handle : η} {covered : ExtTreeSet υ}
    (success : Bool) (hrun : t.cancelled = false) (hcall : t.calls[handle]? = some covered) :
    (t.resolve handle success).policy = t.policy ∧
      (t.resolve handle success).calls = t.calls.erase handle ∧
      (t.resolve handle success).cancelled = false := by
  rw [resolve_eq success hrun hcall]
  obtain ⟨h1, h2, h3⟩ := foldl_creditUnit_frame success covered.toList
    { t with calls := t.calls.erase handle }
  exact ⟨h1, h2, h3.trans hrun⟩

/-- Crediting a known unit writes its new count. -/
theorem creditUnit_units {t : Tally η υ} {unit : υ} {old : UnitCount} (success : Bool)
    (hu : t.units[unit]? = some old) :
    (creditUnit success t unit).units = t.units.insert unit (old.credit t.policy success) := by
  unfold creditUnit
  simp only [hu]
  split <;> rfl

theorem creditUnit_undecided {t : Tally η υ} {unit : υ} {old : UnitCount} (success : Bool)
    (hu : t.units[unit]? = some old) :
    (creditUnit success t unit).undecided =
      if old.verdict = .pending ∧ (old.credit t.policy success).verdict ≠ .pending
      then t.undecided - 1 else t.undecided := by
  unfold creditUnit
  simp only [hu]
  split <;> rfl

theorem creditUnit_failed {t : Tally η υ} {unit : υ} {old : UnitCount} (success : Bool)
    (hu : t.units[unit]? = some old) :
    (creditUnit success t unit).failed = true ↔
      t.failed = true ∨ (old.verdict = .pending ∧ (old.credit t.policy success).verdict = .failed) := by
  unfold creditUnit
  simp only [hu]
  split
  · rename_i h
    simp [h.1]
  · rename_i h
    constructor
    · exact Or.inl
    · rintro (hf | ⟨hp, hf⟩)
      · exact hf
      · exact absurd ⟨hp, by rw [hf]; decide⟩ h

/-- The units without a verdict. -/
def pending (t : Tally η υ) : ExtTreeMap υ UnitCount :=
  t.units.filter fun _ c => c.verdict = .pending

/-- The number of undecided units and the failure flag are those of the units, and every verdict
is fair. -/
structure Coherent (t : Tally η υ) : Prop where
  undecided_eq : t.undecided = t.pending.size
  failed_iff : t.failed = true ↔ ∃ (u : υ) (c : UnitCount), t.units[u]? = some c ∧ c.verdict = .failed
  fair : ∀ (u : υ) (c : UnitCount), t.units[u]? = some c → c.Fair t.policy

variable [LawfulEqOrd υ] {t : Tally η υ}

/-- An answer to one unit leaves every other unit alone. -/
theorem getElem?_creditUnit (success : Bool) (t : Tally η υ) (unit u : υ) :
    (creditUnit success t unit).units[u]? =
      if compare unit u = .eq then t.units[u]?.map (·.credit t.policy success)
      else t.units[u]? := by
  cases hu : t.units[unit]? with
  | none =>
    have hsame : creditUnit success t unit = t := by unfold creditUnit; simp only [hu]
    rw [hsame]
    split
    · rename_i h
      rw [← LawfulEqOrd.eq_of_compare h, hu]; rfl
    · rfl
  | some old =>
    rw [creditUnit_units success hu, ExtTreeMap.getElem?_insert]
    split
    · rename_i h
      rw [← LawfulEqOrd.eq_of_compare h, hu]; rfl
    · rfl

theorem mem_pending {unit : υ} {c : UnitCount} (hu : t.units[unit]? = some c) :
    unit ∈ t.pending ↔ c.verdict = .pending := by
  rw [ExtTreeMap.mem_iff_isSome_getElem?, pending, ExtTreeMap.getElem?_filter', hu]
  simp

/-- A unit leaves the undecided ones when its verdict is given, and at no other time. -/
theorem size_pending_creditUnit {unit : υ} {old : UnitCount} (success : Bool)
    (hu : t.units[unit]? = some old) :
    (creditUnit success t unit).pending.size =
      if old.verdict = .pending ∧ (old.credit t.policy success).verdict ≠ .pending
      then t.pending.size - 1 else t.pending.size := by
  have hpend : ∀ u : υ, (creditUnit success t unit).pending[u]? =
      (t.units.insert unit (old.credit t.policy success))[u]?.filter
        fun c : UnitCount => c.verdict = .pending := by
    intro u
    rw [pending, ExtTreeMap.getElem?_filter', creditUnit_units success hu]
  -- the unit stays among the undecided ones, or it is the one that leaves them
  by_cases hnew : (old.credit t.policy success).verdict = .pending
  · have hold : old.verdict = .pending := by
      by_contra hold
      exact hold (UnitCount.credit_verdict_of_decided success hold ▸ hnew)
    have heq : (creditUnit success t unit).pending =
        t.pending.insert unit (old.credit t.policy success) := by
      apply ExtTreeMap.ext_getElem?
      intro u
      rw [hpend, ExtTreeMap.getElem?_insert, ExtTreeMap.getElem?_insert, pending,
        ExtTreeMap.getElem?_filter']
      split <;> simp [hnew]
    rw [heq, ExtTreeMap.size_insert, if_pos (ExtTreeMap.mem_iff_contains.1 ((mem_pending hu).2 hold)),
      if_neg (fun h => h.2 hnew)]
  · have heq : (creditUnit success t unit).pending = t.pending.erase unit := by
      apply ExtTreeMap.ext_getElem?
      intro u
      rw [hpend, ExtTreeMap.getElem?_insert, ExtTreeMap.getElem?_erase, pending,
        ExtTreeMap.getElem?_filter']
      split <;> simp [hnew]
    rw [heq, ExtTreeMap.size_erase]
    simp only [← ExtTreeMap.mem_iff_contains, mem_pending hu, hnew, ne_eq, not_false_eq_true, and_true]

/-- A unit has failed after an answer if one had before, or the answer has failed its unit. -/
theorem exists_failed_creditUnit {unit : υ} {old : UnitCount} (success : Bool)
    (hu : t.units[unit]? = some old) :
    (∃ (u : υ) (c : UnitCount), (creditUnit success t unit).units[u]? = some c ∧
        c.verdict = .failed) ↔
      (∃ (u : υ) (c : UnitCount), t.units[u]? = some c ∧ c.verdict = .failed) ∨
        old.verdict = .pending ∧ (old.credit t.policy success).verdict = .failed := by
  have hself : (creditUnit success t unit).units[unit]? = some (old.credit t.policy success) := by
    rw [getElem?_creditUnit, if_pos compare_self, hu]
    rfl
  constructor
  · rintro ⟨u, c, hc, hf⟩
    by_cases hcmp : compare unit u = .eq
    · obtain rfl := LawfulEqOrd.eq_of_compare hcmp
      obtain rfl : old.credit t.policy success = c := Option.some.inj (hself.symm.trans hc)
      by_cases hp : old.verdict = .pending
      · exact Or.inr ⟨hp, hf⟩
      · rw [UnitCount.credit_verdict_of_decided success hp] at hf
        exact Or.inl ⟨unit, old, hu, hf⟩
    · rw [getElem?_creditUnit, if_neg hcmp] at hc
      exact Or.inl ⟨u, c, hc, hf⟩
  · rintro (⟨u, c, hc, hf⟩ | ⟨-, hf⟩)
    · by_cases hcmp : compare unit u = .eq
      · -- a failed unit that is credited again stays failed
        obtain rfl := LawfulEqOrd.eq_of_compare hcmp
        obtain rfl : old = c := Option.some.inj (hu.symm.trans hc)
        refine ⟨unit, _, hself, ?_⟩
        rw [UnitCount.credit_verdict_of_decided success (by rw [hf]; decide), hf]
      · exact ⟨u, c, by rw [getElem?_creditUnit, if_neg hcmp, hc], hf⟩
    · exact ⟨unit, _, hself, hf⟩

/-- **One answer to one unit keeps a count coherent.** -/
theorem Coherent.creditUnit (h : t.Coherent) (success : Bool) (unit : υ) :
    (creditUnit success t unit).Coherent := by
  cases hu : t.units[unit]? with
  | none =>
    have hsame : Tally.creditUnit success t unit = t := by
      unfold Tally.creditUnit; simp only [hu]
    rw [hsame]; exact h
  | some old =>
    refine ⟨?_, ?_, ?_⟩
    · rw [creditUnit_undecided success hu, size_pending_creditUnit success hu, h.undecided_eq]
    · rw [creditUnit_failed success hu, exists_failed_creditUnit success hu, h.failed_iff]
    · intro u c hc
      rw [(creditUnit_frame success t unit).1]
      rw [getElem?_creditUnit] at hc
      split at hc
      · obtain ⟨c', hc', rfl⟩ := Option.map_eq_some_iff.1 hc
        exact (h.fair u c' hc').credit success
      · exact h.fair u c hc

theorem Coherent.finished_iff (h : t.Coherent) :
    t.finished = true ↔ ∀ (u : υ) (c : UnitCount), t.units[u]? = some c → c.verdict ≠ .pending := by
  unfold finished
  rw [h.undecided_eq, decide_eq_true_eq, ← ExtTreeMap.eq_empty_iff_size_eq_zero]
  constructor
  · intro hemp u c hc hp
    have := (mem_pending hc).2 hp
    rw [hemp] at this
    exact absurd this ExtTreeMap.not_mem_empty
  · intro hall
    apply ExtTreeMap.ext_getElem?
    intro u
    rw [pending, ExtTreeMap.getElem?_filter']
    cases hc : t.units[u]? with
    | none => simp
    | some c => simp [hall u c hc]

theorem Coherent.undecided_pos (h : t.Coherent) {u : υ} {c : UnitCount}
    (hc : t.units[u]? = some c) (hopen : c.verdict = .pending) : 0 < t.undecided := by
  apply Nat.pos_of_ne_zero
  intro hzero
  have hfinished : t.finished = true := decide_eq_true hzero
  exact h.finished_iff.1 hfinished u c hc hopen

theorem Coherent.credit_each (h : t.Coherent) (success : Bool) (covered : List υ) :
    (covered.foldl (Tally.creditUnit success) t).Coherent := by
  induction covered generalizing t with
  | nil => exact h
  | cons u rest ih => exact ih (h.creditUnit success u)

theorem getElem?_foldl_creditUnit_of_not_mem (success : Bool) {covered : List υ} (t : Tally η υ)
    {u : υ} (hu : u ∉ covered) : (covered.foldl (creditUnit success) t).units[u]? = t.units[u]? := by
  induction covered generalizing t with
  | nil => rfl
  | cons v rest ih =>
    rw [List.mem_cons, not_or] at hu
    rw [List.foldl_cons, ih _ hu.2, getElem?_creditUnit, if_neg]
    intro hcmp
    exact hu.1 (LawfulEqOrd.eq_of_compare hcmp).symm

/-- Each of some distinct units is credited once. -/
theorem getElem?_foldl_creditUnit_of_mem (success : Bool) {covered : List υ}
    (hdistinct : covered.Nodup) (t : Tally η υ) {u : υ} (hu : u ∈ covered) :
    (covered.foldl (creditUnit success) t).units[u]? =
      t.units[u]?.map (·.credit t.policy success) := by
  induction covered generalizing t with
  | nil => cases hu
  | cons v rest ih =>
    obtain ⟨hv, hrest⟩ := List.nodup_cons.1 hdistinct
    rw [List.foldl_cons]
    rcases List.mem_cons.1 hu with rfl | hu
    · rw [getElem?_foldl_creditUnit_of_not_mem _ _ hv, getElem?_creditUnit, if_pos compare_self]
    · have hne : ¬ compare v u = .eq := by
        intro hcmp
        exact hv (LawfulEqOrd.eq_of_compare hcmp ▸ hu)
      rw [ih hrest _ hu, getElem?_creditUnit, if_neg hne, (creditUnit_frame success t v).1]

section Calls

variable [TransOrd η] {handle : η} {covered : ExtTreeSet υ}

/-- **An answer credits exactly the units of its call**, each of them once. -/
theorem getElem?_resolve (success : Bool) (hrun : t.cancelled = false)
    (hcall : t.calls[handle]? = some covered) (u : υ) :
    (t.resolve handle success).units[u]? =
      if u ∈ covered then t.units[u]?.map (·.credit t.policy success) else t.units[u]? := by
  have hdistinct : covered.toList.Nodup :=
    covered.distinct_toList.imp fun hne heq => hne (by rw [heq]; exact compare_self)
  rw [resolve_eq success hrun hcall]
  by_cases hu : u ∈ covered.toList
  · rw [if_pos (ExtTreeSet.mem_toList.1 hu)]
    exact getElem?_foldl_creditUnit_of_mem success hdistinct _ hu
  · rw [if_neg fun h => hu (ExtTreeSet.mem_toList.2 h)]
    exact getElem?_foldl_creditUnit_of_not_mem success _ hu

/-- **Every answer keeps a count coherent.** -/
theorem Coherent.resolve (h : t.Coherent) (handle : η) (success : Bool) :
    (t.resolve handle success).Coherent := by
  unfold Tally.resolve
  split
  · exact h
  · split
    · exact h
    · refine Coherent.credit_each ?_ success _
      exact ⟨h.undecided_eq, h.failed_iff, h.fair⟩

theorem failed_of_resolve_success (h : t.Coherent) {handle : η}
    (hf : (t.resolve handle true).failed = true) : t.failed = true := by
  by_cases hrun : t.cancelled = true
  · unfold Tally.resolve at hf
    rwa [if_pos hrun] at hf
  · cases hcall : t.calls[handle]? with
    | none =>
      unfold Tally.resolve at hf
      rwa [if_neg hrun, hcall] at hf
    | some covered =>
      obtain ⟨u, c, hc, hfail⟩ := (h.resolve handle true).failed_iff.1 hf
      rw [getElem?_resolve true (by simpa using hrun) hcall] at hc
      refine h.failed_iff.2 ?_
      split at hc
      · obtain ⟨old, hold, rfl⟩ := Option.map_eq_some_iff.1 hc
        exact ⟨u, old, hold, (h.fair u old hold).failed_of_credit hfail⟩
      · exact ⟨u, c, hc, hfail⟩

end Calls

/-- At the start every unit asked for is known, without an answer. -/
theorem getElem?_ofUnits {units : List υ} {policy : Policy} {u : υ} {c : UnitCount} :
    (ofUnits units policy : Tally η υ).units[u]? = some c ↔ u ∈ units ∧ c = {} := by
  have hvalue : ∀ c, (ofUnits units policy : Tally η υ).units[u]? = some c → u ∈ units ∧ c = {} := by
    intro c hc
    obtain ⟨v, hv, heq⟩ := List.mem_map.1 (mem_of_getElem?_mapOfList hc)
    obtain ⟨rfl, rfl⟩ := Prod.mk.inj heq
    exact ⟨hv, rfl⟩
  refine ⟨hvalue c, ?_⟩
  rintro ⟨hu, rfl⟩
  have hmem : u ∈ (ofUnits units policy : Tally η υ).units := by
    unfold ofUnits
    rw [mem_mapOfList, List.map_map]
    exact List.mem_map.2 ⟨u, hu, rfl⟩
  obtain ⟨c, hc⟩ := Option.isSome_iff_exists.1 (ExtTreeMap.mem_iff_isSome_getElem?.1 hmem)
  rw [hc, (hvalue c hc).2]

theorem coherent_ofUnits (units : List υ) (policy : Policy) :
    (ofUnits units policy : Tally η υ).Coherent := by
  refine ⟨?_, ?_, ?_⟩
  · have hall : (ofUnits units policy : Tally η υ).pending = (ofUnits units policy : Tally η υ).units := by
      apply ExtTreeMap.ext_getElem?
      intro u
      rw [pending, ExtTreeMap.getElem?_filter']
      cases hc : (ofUnits units policy : Tally η υ).units[u]? with
      | none => rfl
      | some c => rw [(getElem?_ofUnits.1 hc).2]; rfl
    rw [hall]; rfl
  · constructor
    · intro h; cases h
    · rintro ⟨u, c, hc, hf⟩
      rw [(getElem?_ofUnits.1 hc).2] at hf
      cases hf
  · intro u c hc
    rw [(getElem?_ofUnits.1 hc).2]
    exact UnitCount.fair_empty policy

end Tally

end QuorumStore.Quorum
