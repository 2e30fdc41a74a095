import QuorumStore.Proofs.Cluster.Guarded
import QuorumStore.Proofs.Store.AllOrNothing

/-!
# Replicas asked one after the other

A coordinator that asks its replicas in turn waits for each call, and calls of earlier writes go on in the
meantime. What comes of a call is settled when it arrives: it fails without a trace, or reaches its store
when it has waited. Whatever else happens then, the faults of the replicas stay as they are.

* `Cluster.SameFaults`: calls that reach their stores change no faults.
* `Cluster.Applied`, `Cluster.Broadcasts`: a side effect on replicas in turn, and how it ends.
* `Run.Ends`: a computation ends in a given way, unless it is abandoned.
* `Run.applyToAll_ends`: **a side effect is done on the replicas before the first that fails.**
* `Run.firstAnswer_ends`: a question is answered by the first replica that does not fail.
-/

namespace QuorumStore

open Std

variable {α : Type} {c c' c₁ : Cluster} {id : ReplicaId} {v : Verb α}

namespace Cluster

/-- The stores of the replicas. -/
def stores (c : Cluster) (id : ReplicaId) : Option Store := c.replicas[id]?.map Replica.store

theorem Guarded.store {J : Store → Prop} {ids : List ReplicaId} (h : c.Guarded J ids)
    (hid : id ∈ ids) : ∃ s, c.stores id = some s ∧ J s := by
  obtain ⟨r, hr, hJ⟩ := h.replicas id hid
  refine ⟨r.store, ?_, hJ⟩
  unfold stores
  rw [hr]
  rfl

theorem Guarded.arrived {J : Store → Prop} {ids : List ReplicaId} (h : c.Guarded J ids)
    (id : ReplicaId) : (c.arrived id).Guarded J ids :=
  h.turns (c.turns_arrived id)

/-- The stores when a verb has been done on one of them. -/
def doneOn (v : Verb α) (stores : ReplicaId → Option Store) (id : ReplicaId) :
    ReplicaId → Option Store :=
  Function.update stores id ((stores id).map fun s => (Store.run v s).2)

/-- Whatever of a replica a call leaves as it is it leaves of all replicas. -/
theorem map_insert_of_eq {β : Type} {r : Replica} {f : Replica → β}
    (hr : c.replicas[id]? = some r) (r' : Replica) (hf : f r' = f r) (other : ReplicaId) :
    (c.replicas.insert id r')[other]?.map f = c.replicas[other]?.map f := by
  rw [ExtTreeMap.getElem?_insert]
  by_cases heq : id = other
  · subst heq
    rw [if_pos compare_self, hr, Option.map_some, Option.map_some, hf]
  · rw [if_neg fun hc => heq (LawfulEqOrd.eq_of_compare hc)]

section Faults

/-- Steps are abandoned and calls refused in the same way on two clusters. -/
structure SameFaults (c c' : Cluster) : Prop where
  deadline : c'.deadline = c.deadline
  admission : ∀ id, c'.admission id = c.admission id

theorem SameFaults.refl (c : Cluster) : c.SameFaults c := ⟨rfl, fun _ => rfl⟩

theorem SameFaults.trans {c₂ : Cluster} (h : c.SameFaults c₁) (h' : c₁.SameFaults c₂) :
    c.SameFaults c₂ :=
  ⟨h'.deadline.trans h.deadline, fun id => (h'.admission id).trans (h.admission id)⟩

/-- Only the deadline and the replicas matter. -/
theorem SameFaults.of_eq (hdeadline : c'.deadline = c.deadline)
    (hreplicas : c'.replicas = c.replicas) : c.SameFaults c' := by
  refine ⟨hdeadline, fun id => ?_⟩
  unfold Cluster.admission
  rw [hreplicas]

theorem SameFaults.refusal (h : c.SameFaults c') (id : ReplicaId) :
    c'.refusal id = c.refusal id := by
  unfold Cluster.refusal
  rw [h.admission]

theorem admission_eq_map (c : Cluster) (id : ReplicaId) : c.admission id =
    (c.replicas[id]?.map Replica.admission).getD (.refused (.noReplicas id)) := by
  unfold admission
  cases c.replicas[id]? <;> rfl

theorem sameFaults_call (c : Cluster) (id : ReplicaId) (v : Verb α) :
    c.SameFaults (c.call id v).2 := by
  cases hr : c.replicas[id]? with
  | none =>
    rw [call_of_none hr]
    exact .refl c
  | some r =>
    refine ⟨?_, fun other => ?_⟩
    · rw [call_of_some hr]
    · rw [admission_eq_map, admission_eq_map, call_of_some hr]
      exact congrArg (fun known => Option.getD known _) (map_insert_of_eq hr (r.perform v).2 rfl other)

theorem Turn.sameFaults (h : c.Turn c') : c.SameFaults c' := by
  cases h with
  | moved | lost | clock => exact .of_eq rfl rfl
  | @reached first rest hlate =>
    have hothers : c.SameFaults { c with late := rest } := .of_eq rfl rfl
    exact hothers.trans (sameFaults_call _ first.replica first.verb)

theorem sameFaults_arrived (c : Cluster) (id : ReplicaId) : c.SameFaults (c.arrived id) :=
  (c.turns_arrived id).keeps (I := c.SameFaults) (fun _ _ h hturn => h.trans hturn.sameFaults) (.refl c)

end Faults

section Stores

theorem stores_call (c : Cluster) (id : ReplicaId) (v : Verb α) :
    (c.call id v).2.stores = doneOn v c.stores id := by
  funext other
  unfold doneOn stores
  cases hr : c.replicas[id]? with
  | none =>
    rw [call_of_none hr]
    by_cases heq : other = id
    · rw [heq, Function.update_self, hr]
      rfl
    · rw [Function.update_of_ne heq]
  | some r =>
    rw [call_of_some hr, ExtTreeMap.getElem?_insert]
    by_cases heq : id = other
    · subst heq
      rw [if_pos compare_self, Function.update_self]
      rfl
    · rw [if_neg fun hc => heq (LawfulEqOrd.eq_of_compare hc), Function.update_of_ne (Ne.symm heq)]

/-- A call that its store answers with a failure leaves the stores as they are. -/
theorem stores_call_of_error {e : Failure} (herror : (c.call id v).1 = .error e) :
    (c.call id v).2.stores = c.stores := by
  cases hr : c.replicas[id]? with
  | none => rw [call_of_none hr]
  | some r =>
    rw [call_of_some hr] at herror ⊢
    have hsame : (r.perform v).2.store = r.store := Store.run_eq_of_error herror
    funext other
    exact map_insert_of_eq hr _ hsame other

/-- With no call on its way a wait changes no store. -/
theorem arrived_of_nil (hlate : c.late = []) (id : ReplicaId) :
    (c.arrived id).stores = c.stores ∧ (c.arrived id).late = [] := by
  unfold arrived
  split
  · exact ⟨rfl, hlate⟩
  · split
    · exact ⟨rfl, hlate⟩
    · unfold advanceTo
      rw [runLate_of_nil hlate]
      exact ⟨rfl, hlate⟩

end Stores

theorem Called.sameFaults {result : Except Failure α} (h : c.Called id v result c₁) :
    c.SameFaults c₁ := by
  cases h with
  | refused hrefusal => exact sameFaults_arrived c id
  | reached hopen hcall =>
    have hcalled := sameFaults_call (c.arrived id) id v
    rw [hcall] at hcalled
    exact (sameFaults_arrived c id).trans hcalled

/-- A call that fails leaves the stores as they are. -/
theorem Called.stores_of_error {e : Failure} (h : c.Called id v (.error e) c₁) :
    c₁.stores = (c.arrived id).stores := by
  cases h with
  | refused hrefusal => rfl
  | reached hopen hcall =>
    have hsame := stores_call_of_error (congrArg Prod.fst hcall)
    rwa [hcall] at hsame

/-- A verb is done on replicas in turn: each call reaches its store when it has waited, and succeeds. -/
inductive Applied (v : Verb Unit) : Cluster → List ReplicaId → Cluster → Prop where
  | nil (c : Cluster) : Applied v c [] c
  | cons {c c₁ c' : Cluster} {id : ReplicaId} {ids : List ReplicaId}
    (hcalled : c.Called id v (.ok ()) c₁) (hrest : Applied v c₁ ids c') : Applied v c (id :: ids) c'

/-- How a side effect on replicas in turn ends: it has been done on all of them, or on those before one
that fails, which is left as it was. -/
inductive Broadcasts (v : Verb Unit) (c : Cluster) (ids : List ReplicaId) :
    Except Failure Unit → Cluster → Prop where
  | everywhere {c' : Cluster} (happlied : c.Applied v ids c') : Broadcasts v c ids (.ok ()) c'
  | upTo {applied rest : List ReplicaId} {id : ReplicaId} {e : Failure} {c₁ c₂ c' : Cluster}
      (hids : ids = applied ++ id :: rest) (happlied : c.Applied v applied c₁)
      (hfails : c₁.Called id v (.error e) c₂) (hstores : c'.stores = (c₁.arrived id).stores) :
      Broadcasts v c ids (.error e) c'

section Ends

variable {v : Verb Unit} {ids applied : List ReplicaId} {result : Except Failure Unit}

/-- With no call on its way the stores change by what is done on the replicas, and by nothing else. -/
theorem Applied.stores (h : c.Applied v applied c') (hlate : c.late = []) :
    c'.stores = applied.foldl (doneOn v) c.stores ∧ c'.late = [] := by
  induction h with
  | nil c => exact ⟨rfl, hlate⟩
  | @cons c c₁ c' id ids hcalled hrest ih =>
    obtain ⟨hstores, hlate'⟩ := arrived_of_nil hlate id
    have hdone := stores_call (c.arrived id) id v
    have hlate₁ := late_call (c.arrived id) id v
    cases hcalled with
    | reached hopen hcall =>
    rw [hcall] at hdone hlate₁
    rw [List.foldl_cons, ← hstores, ← hdone]
    exact ih (hlate₁.trans hlate')

/-- With no call on its way a side effect changes the stores of the replicas before the first that
fails, and of no others. -/
theorem Broadcasts.stores (h : c.Broadcasts v ids result c') (hlate : c.late = []) :
    ∃ applied rest, ids = applied ++ rest ∧ (result = .ok () ↔ rest = []) ∧
      c'.stores = applied.foldl (doneOn v) c.stores := by
  cases h with
  | everywhere happlied =>
    refine ⟨ids, [], (List.append_nil ids).symm, iff_of_true rfl rfl, (happlied.stores hlate).1⟩
  | @upTo applied rest id e c₁ _ _ hids happlied hfails hstores =>
    obtain ⟨hdone, hlate₁⟩ := happlied.stores hlate
    refine ⟨applied, id :: rest, hids, iff_of_false (by simp) (by simp), ?_⟩
    rw [hstores, (arrived_of_nil hlate₁ id).1, hdone]

end Ends

/-- How a question to replicas in turn ends, where all of them that do not fail have the same answer:
with the answer, or with the failure of the last replica. -/
structure FallsBack (c : Cluster) (a : α) (last : Failure) (ids : List ReplicaId)
    (result : Except Failure α) : Prop where
  answered : (∃ id ∈ ids, c.refusal id = none) → result = .ok a
  failed : (∀ id ∈ ids, c.refusal id ≠ none) → ∀ id e, ids.getLast? = some id →
    c.refusal id = some e → result = .error e
  nobody : ids = [] → result = .error last

/-- A replica that fails is left out, but for its failure. -/
theorem FallsBack.cons {a : α} {last e : Failure} {ids : List ReplicaId} {result : Except Failure α}
    (hrefusal : c.refusal id = some e) (hfaults : c.SameFaults c₁)
    (h : c₁.FallsBack a e ids result) : c.FallsBack a last (id :: ids) result := by
  refine ⟨?_, fun hall other e' hlast he' => ?_, fun hnil => by cases hnil⟩
  · rintro ⟨other, hother, hopen⟩
    rcases List.mem_cons.1 hother with rfl | hother
    · rw [hrefusal] at hopen
      cases hopen
    · exact h.answered ⟨other, hother, (hfaults.refusal other).trans hopen⟩
  · cases ids with
    | nil =>
      obtain rfl := Option.some.inj hlast
      obtain rfl := Option.some.inj (hrefusal.symm.trans he')
      exact h.nobody rfl
    | cons next rest =>
      rw [List.getLast?_cons_cons] at hlast
      refine h.failed (fun id hid => ?_) other e' hlast ((hfaults.refusal other).trans he')
      rw [hfaults.refusal]
      exact hall id (List.mem_cons_of_mem _ hid)

end Cluster

namespace Run

section Ends

variable {β : Type} {x : Run α} {f : α → Run β} {P : α → Cluster → Prop} {Q : β → Cluster → Prop}

/-- A computation is abandoned, for which there has to be a deadline, or it ends in a given way. -/
inductive Ends (x : Run α) (c : Cluster) (P : α → Cluster → Prop) : Prop where
  | abandoned {c' : Cluster} (hdeadline : c.deadline ≠ none) (hrun : x.run.run c = (.error .abandoned, c')) :
    Ends x c P
  | ended {a : α} {c' : Cluster} (hrun : x.run.run c = (.ok a, c')) (hend : P a c') : Ends x c P

theorem Ends.returns (h : x.Ends c P) (hdeadline : c.deadline = none) :
    ∃ a c', x.run.run c = (.ok a, c') := by
  cases h with
  | abandoned hdue => exact absurd hdeadline hdue
  | ended hrun => exact ⟨_, _, hrun⟩

theorem Ends.of_returned (h : x.Ends c P) {a : α} (hreturned : x.run.run c = (.ok a, c')) : P a c' := by
  cases h with
  | abandoned _ hrun => cases hrun.symm.trans hreturned
  | ended hrun hend =>
    cases hrun.symm.trans hreturned
    exact hend

/-- A computation ends as what follows its first part ends. -/
theorem Ends.bind (h : x.Ends c P)
    (hf : ∀ a c₁, P a c₁ → c₁.deadline = c.deadline ∧ (f a).Ends c₁ Q) : (x >>= f).Ends c Q := by
  cases h with
  | abandoned hdeadline hrun => exact .abandoned hdeadline (run_bind_error hrun)
  | @ended a c₁ hrun hend =>
    obtain ⟨hsame, hrest⟩ := hf a c₁ hend
    cases hrest with
    | abandoned hdeadline hrun' =>
      exact .abandoned (hsame ▸ hdeadline) ((run_bind_ok hrun).trans hrun')
    | ended hrun' hend' => exact .ended ((run_bind_ok hrun).trans hrun') hend'

theorem Ends.mono {R : α → Cluster → Prop} (h : x.Ends c P) (hmono : ∀ a c', P a c' → R a c') :
    x.Ends c R := by
  cases h with
  | abandoned hdeadline hrun => exact .abandoned hdeadline hrun
  | ended hrun hend => exact .ended hrun (hmono _ _ hend)

end Ends

/-- A call to a replica is abandoned or has come to an end. -/
theorem callReplica_ends (c : Cluster) (id : ReplicaId) (v : Verb α) :
    (callReplica id v).Ends c (c.Called id v) := by
  rcases callReplica_cases c id v with ⟨result, c', hrun, hcalled⟩ | ⟨deadline, hdeadline, hrun⟩
  · exact .ended hrun hcalled
  · exact .abandoned (hdeadline ▸ Option.some_ne_none _) hrun

/-- **A side effect on replicas in turn** is done on those before the first that fails. -/
theorem applyToAll_ends {v : Verb Unit} (failed : ReplicaId → Failure → LogEvent) (c : Cluster)
    (ids : List ReplicaId) :
    (applyToAll (callReplica · v) (fun id e => note (failed id e)) ids).Ends c
      (c.Broadcasts v ids) := by
  induction ids generalizing c with
  | nil => exact .ended rfl (.everywhere (.nil c))
  | cons id ids ih =>
    have hfirst : id :: ids = [] ++ id :: ids := rfl
    refine (callReplica_ends c id v).bind fun result c₁ hcalled => ⟨hcalled.sameFaults.deadline, ?_⟩
    cases result with
    | error e => exact .ended rfl (.upTo hfirst (.nil c) hcalled hcalled.stores_of_error)
    | ok _ =>
      refine (ih c₁).mono fun result c' hends => ?_
      cases hends with
      | everywhere happlied => exact .everywhere (.cons hcalled happlied)
      | upTo hids happlied hfails hstores =>
        exact .upTo (congrArg (id :: ·) hids) (.cons hcalled happlied) hfails hstores

/-- **A question to replicas in turn** is answered if one of them does not fail, where all of them have
stores that answer it alike. -/
theorem firstAnswer_ends {J : Store → Prop} {a : α} (failed : ReplicaId → Failure → LogEvent)
    {known : List ReplicaId} (hanswer : ∀ s, J s → (Store.run v s).1 = .ok a)
    (h : c.Guarded J known) {ids : List ReplicaId} (hids : ∀ id ∈ ids, id ∈ known) (last : Failure) :
    (firstAnswer (callReplica · v) (fun id e => note (failed id e)) last ids).Ends c
      fun result _ => c.FallsBack a last ids result := by
  induction ids generalizing c last with
  | nil =>
    refine .ended rfl ⟨fun ⟨_, hid, _⟩ => absurd hid List.not_mem_nil, ?_, fun _ => rfl⟩
    intro _ _ _ hlast
    cases hlast
  | cons id ids ih =>
    obtain ⟨hid, hids⟩ := List.forall_mem_cons.1 hids
    refine (callReplica_ends c id v).bind fun result c₁ hcalled => ⟨hcalled.sameFaults.deadline, ?_⟩
    cases hcalled with
    | @refused e hrefusal =>
      -- the failure is noted, and the next replica is asked
      let noted : Cluster :=
        { c.arrived id with telemetry := (c.arrived id).telemetry.note [failed id e] }
      have hnoted : (note (failed id e)).Ends (c.arrived id) fun _ c' => c' = noted := .ended rfl rfl
      refine hnoted.bind fun _ c₁ hc₁ => ?_
      subst hc₁
      have hfaults : c.SameFaults noted := (Cluster.sameFaults_arrived c id).trans (.of_eq rfl rfl)
      have hguarded : noted.Guarded J known := (h.arrived id).frame rfl (h.arrived id).late
      exact ⟨rfl, (ih hguarded hids e).mono fun result c' hends => hends.cons hrefusal hfaults⟩
    | reached hopen hcall =>
      -- the call reaches its store, which has the answer
      obtain ⟨s, hs, hJ⟩ := (h.arrived id).store hid
      have hresult : result = .ok a := by
        obtain ⟨r, hr, rfl⟩ := Option.map_eq_some_iff.1 hs
        rw [Cluster.call_of_some hr] at hcall
        rw [← (Prod.mk.inj hcall).1]
        exact hanswer _ hJ
      subst hresult
      refine .ended rfl ⟨fun _ => rfl, fun hall => ?_, fun hnil => by cases hnil⟩
      exact absurd hopen (hall id List.mem_cons_self)

end Run

end QuorumStore
