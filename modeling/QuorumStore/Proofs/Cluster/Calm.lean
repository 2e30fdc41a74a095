import QuorumStore.Proofs.Cluster.Openings
import QuorumStore.Proofs.Triple

/-!
# Range reads on a calm cluster

A cluster is calm if its replicas are healthy and no write is under way. Replicas may be slow. Then
nothing but reads happens, and every replica that is asked opens a cursor over its rows, however
long it takes.

* `Cluster.Calm`: a calm cluster whose replicas have the given stores.
* `Calm.turn`, `Openings.Calm.step`: a calm cluster stays so while time passes and while it is read.
* `Run.openAll_calm`: **every replica asked opens a cursor over its own rows.**
-/

namespace QuorumStore

open Std Std.Do

/-- No fault is injected. A replica may still be slow. -/
structure Replica.Healthy (r : Replica) : Prop where
  injected : r.injected = none
  outage : r.faults.outage = none
  failing : r.faults.failing = false
  cursorLimit : r.faults.cursorLimit = none

/-- No write is under way behind the coordinator, and the listed replicas are healthy and have the
given stores. -/
structure Cluster.Calm (k : Coordinator) (ids : List ReplicaId) (stores : ReplicaId → Store)
    (c : Cluster) : Prop where
  coordinator : c.coordinator = some k
  late : c.late = []
  deadline : c.deadline = none
  replicas : ∀ id ∈ ids, ∃ r, c.replicas[id]? = some r ∧ r.Healthy ∧ r.store = stores id

/-- What a replica with the given store answers to a range read. -/
def RangeRead.answer {τ : Type} (read : RangeRead τ) (range : RowRange) (s : Store) :
    Except Failure (Feed (Row τ)) :=
  (s.scan read.table range read.time read.projection).map fun rows => { items := rows }

variable {k : Coordinator} {ids : List ReplicaId} {stores : ReplicaId → Store} {c c' : Cluster} {id : ReplicaId}

theorem Replica.Healthy.admission {r : Replica} (h : r.Healthy) :
    r.admission = .delayed r.faults.latency none := by
  unfold Replica.admission
  rw [h.injected, h.outage, h.failing]
  rfl

namespace Cluster

/-- Clock and telemetry play no part. -/
theorem Calm.frame (h : c.Calm k ids stores) (hreplicas : c'.replicas = c.replicas)
    (hlate : c'.late = c.late) (hdeadline : c'.deadline = c.deadline)
    (hcoordinator : c'.coordinator = c.coordinator) : c'.Calm k ids stores := by
  refine ⟨hcoordinator.trans h.coordinator, hlate.trans h.late, hdeadline.trans h.deadline,
    fun id hid => ?_⟩
  rw [hreplicas]
  exact h.replicas id hid

theorem Calm.admission (h : c.Calm k ids stores) (hid : id ∈ ids) :
    ∃ wait, c.admission id = .delayed wait none := by
  obtain ⟨r, hr, hhealthy, -⟩ := h.replicas id hid
  refine ⟨r.faults.latency, ?_⟩
  unfold Cluster.admission
  rw [hr]
  exact hhealthy.admission

/-- Where no write is under way only the clock moves. -/
theorem Calm.turn (h : c.Calm k ids stores) (hturn : c.Turn c') : c'.Calm k ids stores := by
  cases hturn with
  | clock t => exact h.frame rfl rfl rfl rfl
  | moved _ _ hlate | lost hlate | reached hlate =>
    rw [h.late] at hlate
    cases hlate

theorem Calm.turns (h : c.Calm k ids stores) (hturns : c.Turns c') : c'.Calm k ids stores :=
  hturns.keeps (fun _ _ h hturn => h.turn hturn) h

theorem Calm.advanceTo (h : c.Calm k ids stores) (t : Nat) : (c.advanceTo t).Calm k ids stores :=
  h.turns (c.turns_advanceTo t)

/-- No call to a healthy replica fails. -/
theorem Calm.refusal (h : c.Calm k ids stores) (hid : id ∈ ids) : c.refusal id = none := by
  obtain ⟨wait, hadmission⟩ := h.admission hid
  unfold Cluster.refusal
  rw [hadmission]

/-- A range read counts as a completed call of its replica, and changes nothing else. -/
theorem Calm.openRange {τ : Type} (h : c.Calm k ids stores) (hid : id ∈ ids) (read : RangeRead τ)
    (range : RowRange) : (c.openRange id read range).1 = read.answer range (stores id) ∧
      (c.openRange id read range).2.Calm k ids stores := by
  obtain ⟨r, hr, hhealthy, hstore⟩ := h.replicas id hid
  unfold Cluster.openRange
  rw [hr]
  refine ⟨?_, h.coordinator, h.late, h.deadline, fun other hother => ?_⟩
  · unfold Replica.openRange RangeRead.answer
    dsimp only
    rw [hstore]
    congr 1
    funext rows
    unfold Replica.cursor
    rw [hhealthy.cursorLimit]
    rfl
  · by_cases heq : id = other
    · subst heq
      have hget : (c.replicas.insert id { r with completed := r.completed + 1 })[id]? =
          some { r with completed := r.completed + 1 } := by
        rw [ExtTreeMap.getElem?_insert, if_pos compare_self]
      exact ⟨_, hget, ⟨hhealthy.injected, hhealthy.outage, hhealthy.failing,
        hhealthy.cursorLimit⟩, hstore⟩
    · obtain ⟨r', hr', hfacts⟩ := h.replicas other hother
      refine ⟨r', ?_, hfacts⟩
      show (c.replicas.insert id _)[other]? = some r'
      rw [ExtTreeMap.getElem?_insert, if_neg fun hc => heq (LawfulEqOrd.eq_of_compare hc)]
      exact hr'

end Cluster

section RangeReads

variable {τ : Type} {read : RangeRead τ} {range : RowRange} {asked : List ReplicaId} {s s' : Openings τ}

/-- The cluster is calm, and replicas answer with their own rows. -/
def Openings.Calm (k : Coordinator) (ids : List ReplicaId) (stores : ReplicaId → Store)
    (read : RangeRead τ) (range : RowRange) (s : Openings τ) : Prop :=
  s.cluster.Calm k ids stores ∧ ∀ a ∈ s.answers, a.2 = read.answer range (stores a.1)

theorem Openings.Calm.step (hasked : ∀ id ∈ asked, id ∈ ids) (h : s.Calm k ids stores read range)
    (hstep : Step read range asked s s') : s'.Calm k ids stores read range := by
  obtain ⟨hcalm, hanswers⟩ := h
  cases hstep with
  | turn hturn => exact ⟨hcalm.turn hturn, hanswers⟩
  | failed hid hrefusal =>
    rw [hcalm.refusal (hasked _ hid)] at hrefusal
    cases hrefusal
  | opened hid =>
    obtain ⟨hanswer, hcalm'⟩ := hcalm.openRange (hasked _ hid) read range
    refine ⟨hcalm', fun a ha => ?_⟩
    rcases List.mem_append.1 ha with ha | ha
    · exact hanswers a ha
    · rw [List.mem_singleton.1 ha]
      exact hanswer

/-- **Every replica asked opens a cursor over its own rows.** -/
theorem Run.openAll_calm (hasked : ∀ id ∈ asked, id ∈ ids) :
    ⦃fun c => ⌜c.Calm k ids stores⌝⦄ (openAll read range asked)
    ⦃⇓ opened => spred(⌜opened = asked.map fun id => (id, read.answer range (stores id))⌝ ∧
      fun c => ⌜c.Calm k ids stores⌝)⦄ := by
  refine triple_of_run fun c h => ?_
  have hstart : (⟨c, []⟩ : Openings τ).Calm k ids stores read range :=
    ⟨h, fun _ ha => absurd ha List.not_mem_nil⟩
  cases openAll_opens read range asked ⟨c, []⟩ with
  | abandoned _ hdeadline => exact absurd h.deadline hdeadline
  | @ended opened s hsteps hrun hend =>
    obtain ⟨hcalm, hanswers⟩ := hsteps.keeps (fun _ _ h hstep => h.step hasked hstep) hstart
    refine ⟨opened, s.cluster, hrun, ?_, hcalm⟩
    rw [← hend.1, List.map_map]
    refine (List.map_id opened).symm.trans (List.map_congr_left fun o ho => ?_)
    exact Prod.ext rfl (hanswers o (hend.2 o ho))

end RangeReads

end QuorumStore
