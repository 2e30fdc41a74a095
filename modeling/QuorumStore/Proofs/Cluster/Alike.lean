import QuorumStore.Cluster.RangeRead
import QuorumStore.Proofs.Cluster.Run

/-!
# Clusters that differ in their telemetry

Counters and log are written, and nothing in a cluster reads them. From two clusters that differ only
there a range read finds the same answers, and leaves two such clusters.

* `Cluster.Alike`: two clusters that differ at most in their telemetry.
* `Cluster.Alike.advanceTo`: time passes alike.
* `Run.Blind`: a computation that does not read the telemetry.
* `Run.blind_openAll`: **a range read on several replicas does not.**
-/

namespace QuorumStore

open Std

variable {α β τ : Type}

namespace Cluster

/-- Two clusters differ at most in what has been counted and logged. -/
def Alike (c c' : Cluster) : Prop := ∃ t, c' = { c with telemetry := t }

variable {c c' c'' : Cluster}

theorem Alike.refl (c : Cluster) : c.Alike c := ⟨c.telemetry, rfl⟩

theorem Alike.trans (h : c.Alike c') (h' : c'.Alike c'') : c.Alike c'' := by
  obtain ⟨t, rfl⟩ := h
  obtain ⟨t', rfl⟩ := h'
  exact ⟨t', rfl⟩

theorem Alike.call (h : c.Alike c') (id : ReplicaId) (v : Verb α) :
    (c.call id v).1 = (c'.call id v).1 ∧ (c.call id v).2.Alike (c'.call id v).2 := by
  obtain ⟨t, rfl⟩ := h
  unfold Cluster.call
  dsimp only
  split <;> exact ⟨rfl, _, rfl⟩

theorem Alike.openRange (h : c.Alike c') (id : ReplicaId) (read : RangeRead τ) (range : RowRange) :
    (c.openRange id read range).1 = (c'.openRange id read range).1 ∧
      (c.openRange id read range).2.Alike (c'.openRange id read range).2 := by
  obtain ⟨t, rfl⟩ := h
  unfold Cluster.openRange
  dsimp only
  split <;> exact ⟨rfl, _, rfl⟩

theorem Alike.finishLate (h : c.Alike c') (call : LateCall) (fate : Option Failure) :
    (c.finishLate call fate).Alike (c'.finishLate call fate) := by
  cases fate with
  | some => exact h
  | none => exact (h.call call.replica call.verb).2

/-- **Calls that go on by themselves do so alike.** -/
theorem Alike.runLateCalls (h : c.Alike c') (bound : Nat) (calls : List LateCall) :
    (c.runLateCalls bound calls).Alike (c'.runLateCalls bound calls) := by
  have hadmission : ∀ {c c' : Cluster}, c.Alike c' → ∀ id, c'.admission id = c.admission id := by
    rintro c _ ⟨t, rfl⟩ id
    rfl
  have hrest : ∀ {c c' : Cluster}, c.Alike c' → ∀ late : List LateCall,
      ({ c with late } : Cluster).Alike { c' with late } := by
    rintro c _ ⟨t, rfl⟩ late
    exact ⟨t, rfl⟩
  -- along the turns of the first cluster, which are those of the second
  fun_induction Cluster.runLateCalls bound c calls generalizing c' with
  | case1 c =>
    rw [Cluster.runLateCalls]
    exact hrest h []
  | case2 c first rest hdue =>
    rw [Cluster.runLateCalls, if_pos hdue]
    exact hrest h (first :: rest)
  | case3 c first rest hdue fate hphase ih =>
    rw [runLateCalls_cons hdue, hphase]
    exact ih (h.finishLate first fate)
  | case4 c first rest hdue hphase e hrefused ih =>
    rw [runLateCalls_cons hdue, hphase, hadmission h, hrefused]
    exact ih h
  | case5 c first rest hdue hphase fate hadmitted ih =>
    rw [runLateCalls_cons hdue, hphase, hadmission h, hadmitted]
    exact ih (h.finishLate first fate)
  | case6 c first rest hdue hphase wait fate hwait hadmitted ih =>
    rw [runLateCalls_cons hdue, hphase, hadmission h, hadmitted]
    cases wait with
    | zero => exact absurd rfl hwait
    | succ wait => exact ih h

theorem Alike.advanceTo (h : c.Alike c') (t : Nat) : (c.advanceTo t).Alike (c'.advanceTo t) := by
  have hlate : c'.late = c.late := by
    obtain ⟨t, rfl⟩ := h
    rfl
  have hnow : ∀ {c c' : Cluster}, c.Alike c' →
      ({ c with now := max c.now t } : Cluster).Alike { c' with now := max c'.now t } := by
    rintro c _ ⟨t, rfl⟩
    exact ⟨t, rfl⟩
  have hrun := h.runLateCalls t c.late
  unfold Cluster.advanceTo Cluster.runLate
  rw [hlate]
  exact hnow hrun

end Cluster

namespace Run

/-- A computation does not read the telemetry: from clusters that are alike it comes to the same
result, and leaves clusters that are alike. -/
def Blind (x : Run α) : Prop :=
  ∀ c c', c.Alike c' → (x.run.run c).1 = (x.run.run c').1 ∧ (x.run.run c).2.Alike (x.run.run c').2

theorem Blind.pure (a : α) : Blind (Pure.pure a : Run α) := fun _ _ h => ⟨rfl, h⟩

theorem Blind.bind {x : Run α} {f : α → Run β} (hx : Blind x) (hf : ∀ a, Blind (f a)) :
    Blind (x >>= f) := by
  intro c c' h
  obtain ⟨hsame, halike⟩ := hx c c' h
  rcases hrun : x.run.run c with ⟨result, c₁⟩
  rcases hrun' : x.run.run c' with ⟨result', c₁'⟩
  rw [hrun, hrun'] at hsame halike
  obtain rfl : result = result' := hsame
  cases result with
  | ok a =>
    rw [run_bind_ok hrun, run_bind_ok hrun']
    exact hf a c₁ c₁' halike
  | error e =>
    rw [run_bind_error hrun, run_bind_error hrun']
    exact ⟨rfl, halike⟩

/-- A computation that looks at the cluster first. -/
theorem Blind.get_bind {f : Cluster → Run β} (hf : ∀ c c', c.Alike c' →
    ((f c).run.run c).1 = ((f c').run.run c').1 ∧ ((f c).run.run c).2.Alike ((f c').run.run c').2) :
    Blind (get >>= f) :=
  hf

theorem blind_waitUntil (t : Nat) : Blind (waitUntil t) := by
  refine Blind.get_bind fun c c' h => ?_
  have hthen : ∀ t, (c.advanceTo t).Alike (c'.advanceTo t) := h.advanceTo
  obtain ⟨t', rfl⟩ := h
  dsimp only
  split
  · exact ⟨rfl, t', rfl⟩
  · split
    · rename_i deadline _
      split
      · exact ⟨rfl, hthen deadline⟩
      · exact ⟨rfl, hthen t⟩
    · exact ⟨rfl, hthen t⟩

section Openings

variable (read : RangeRead τ) (range : RowRange)

theorem blind_settle (id : ReplicaId) (fate : Option Failure) : Blind (settle id read range fate) := by
  cases fate with
  | some e => exact .pure _
  | none =>
    intro c c' h
    obtain ⟨hsame, halike⟩ := h.openRange id read range
    exact ⟨congrArg Except.ok hsame, halike⟩

theorem blind_beginOpening (id : ReplicaId) : Blind (beginOpening read range id) := by
  refine Blind.get_bind fun c c' h => ?_
  have hsame : c'.admission id = c.admission id ∧ c'.now = c.now := by
    obtain ⟨t, rfl⟩ := h
    exact ⟨rfl, rfl⟩
  rw [hsame.1, hsame.2]
  suffices hblind : Blind _ from hblind c c' h
  split
  · exact .pure _
  · split
    · exact (blind_settle read range id _).bind fun result => .pure _
    · exact .pure _

theorem blind_settleDue (t : Nat) (openings : List (ReplicaId × Opening τ)) :
    Blind (settleDue read range t openings) := by
  induction openings with
  | nil => exact .pure _
  | cons first openings ih =>
    obtain ⟨id, opening⟩ := first
    -- once the first is seen to, the others follow
    have hcont : ∀ o : Opening τ,
        Blind (do return (id, o) :: (← settleDue read range t openings)) :=
      fun o => ih.bind fun openings => .pure _
    unfold settleDue
    cases opening with
    | settled result => exact hcont _
    | waiting due fate =>
      dsimp only
      split
      · exact (blind_settle read range id fate).bind fun result => hcont (.settled result)
      · exact hcont _

theorem blind_settleAll (times : List Nat) (openings : List (ReplicaId × Opening τ)) :
    Blind (settleAll read range times openings) := by
  induction times generalizing openings with
  | nil => exact .pure _
  | cons t times ih =>
    exact (blind_waitUntil t).bind fun _ => (blind_settleDue read range t openings).bind ih

/-- **A range read on several replicas does not read the telemetry.** -/
theorem blind_openAll (ids : List ReplicaId) : Blind (openAll read range ids) := by
  have hbegin : Blind (ids.mapM (beginOpening read range)) := by
    induction ids with
    | nil => exact .pure _
    | cons id ids ih =>
      rw [List.mapM_cons]
      exact (blind_beginOpening read range id).bind fun o => ih.bind fun openings => .pure _
  exact hbegin.bind fun openings => (blind_settleAll read range _ openings).bind fun settled => .pure _

end Openings

end Run

end QuorumStore
