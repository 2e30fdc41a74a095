import Mathlib.Logic.Relation
import QuorumStore.Proofs.Cluster.InTurn
import QuorumStore.Proofs.Cluster.PointReads
import QuorumStore.Proofs.Store.Metadata

/-!
# The metadata of a table on a cluster

Metadata are written on every replica, one after the other, and read from the first that answers. When
writing them succeeds every replica has them, and has them still as long as nobody writes others, drops
the table or tears the stores down. So it does not matter which replica answers.

* `Applied.guarded`: a side effect that has been done on replicas has left its trace on each.
* `Cluster.Happens`, `Cluster.Anything`, `Cluster.Sparing`: something happens, whatever it is, or nobody
  tries to change the metadata of a table.
* `Guarded.anything`, `Guarded.sparing`: what goes on by itself leaves metadata alone, and then they stay.
* `Coordinator.BroadcastEnds`, `Coordinator.MetadataRead`: how the two operations end.
* `Coordinator.metadata_read`: **metadata that have been written are read** from whichever replica
  answers, and where none does the last failure is the answer.
-/

namespace QuorumStore

open Std

variable {k : Coordinator} {c c' : Cluster} {id : ReplicaId} {table : TableName} {m : Bytes}

namespace Cluster

section Trace

variable {J : Store → Prop} {known asked : List ReplicaId} {v : Verb Unit}

theorem Guarded.of_stores (h : c.Guarded J known) (hstores : c'.stores = c.stores)
    (hlate : c'.late = c.late) : c'.Guarded J known := by
  refine ⟨hlate ▸ h.late, fun id hid => ?_⟩
  obtain ⟨s, hs, hJ⟩ := h.store hid
  rw [← hstores] at hs
  obtain ⟨r, hr, rfl⟩ := Option.map_eq_some_iff.1 hs
  exact ⟨r, hr, hJ⟩

/-- A call that succeeds leaves its trace at its store. -/
theorem Guarded.called (h : c.Guarded J known) (hv : v.Preserves J)
    (hdone : ∀ s, (Store.run v s).1 = .ok () → J (Store.run v s).2)
    (hok : (c.call id v).1 = .ok ()) : (c.call id v).2.Guarded J (known ++ [id]) := by
  obtain ⟨hlate, hreplicas⟩ := h.call id fun _ => hv
  refine ⟨hlate, fun other hother => ?_⟩
  rcases List.mem_append.1 hother with hother | hother
  · exact hreplicas other hother
  · rw [List.mem_singleton.1 hother]
    cases hr : c.replicas[id]? with
    | none =>
      unfold Cluster.call at hok
      rw [hr] at hok
      cases hok
    | some r =>
      rw [call_of_some hr] at hok ⊢
      exact ⟨(r.perform v).2, by rw [ExtTreeMap.getElem?_insert, if_pos compare_self],
        hdone r.store hok⟩

/-- **A side effect that has been done on replicas** has left its trace at each of them. -/
theorem Applied.guarded (happlied : c.Applied v asked c') (hv : v.Preserves J)
    (hdone : ∀ s, (Store.run v s).1 = .ok () → J (Store.run v s).2) (h : c.Guarded J known) :
    c'.Guarded J (known ++ asked) := by
  induction happlied generalizing known with
  | nil c =>
    rw [List.append_nil]
    exact h
  | @cons c c₁ c' id ids hcalled hrest ih =>
    cases hcalled with
    | reached hopen hcall =>
    have hfirst := (h.arrived id).called hv hdone (congrArg Prod.fst hcall)
    rw [hcall] at hfirst
    have hall := ih hfirst
    rwa [List.append_assoc] at hall

end Trace

/-- Something happens on a cluster, where a coordinator or a store is only asked for what is allowed. -/
inductive Happens (allowed : ∀ α : Type, Verb α → Prop) : Cluster → Cluster → Prop where
  /-- A coordinator is asked for something: it answers, fails or is abandoned. -/
  | asked {α : Type} {c : Cluster} (k : Coordinator) {v : Verb α} (hv : allowed α v) :
    Happens allowed c ((k.run v).run.run c).2
  /-- A call reaches a store. -/
  | called {α : Type} {c : Cluster} (id : ReplicaId) {v : Verb α} (hv : allowed α v) :
    Happens allowed c (c.call id v).2
  /-- A range is read on some replicas. -/
  | read {τ : Type} {c : Cluster} (read : RangeRead τ) (range : RowRange) (ids : List ReplicaId) :
    Happens allowed c ((Run.openAll read range ids).run.run c).2
  /-- Time passes, and calls go on by themselves. -/
  | waited {c : Cluster} (t : Nat) : Happens allowed c (c.advanceTo t)
  /-- Faults come and go, or whatever else leaves the stores and the calls on their way alone. -/
  | other {c c' : Cluster} (hstores : c'.stores = c.stores) (hlate : c'.late = c.late) :
    Happens allowed c c'

/-- Something happens, whatever it is. -/
abbrev Anything : Cluster → Cluster → Prop := Happens fun _ _ => True

/-- Something happens, and nobody tries to change the metadata of a table. -/
abbrev Sparing (table : TableName) : Cluster → Cluster → Prop :=
  Happens fun _ v => v.SparesMetadata table

/-- Metadata are kept by what happens, if it keeps those of the listed replicas. Calls that go on by
themselves are those of requests to a quorum, which are about data. -/
theorem Guarded.happens {allowed : ∀ α : Type, Verb α → Prop} {ids : List ReplicaId}
    (hallowed : ∀ (α : Type) (v : Verb α), allowed α v →
      ∀ id ∈ ids, v.Preserves fun s => s.metadata? table = some m)
    (h : c.Guarded (fun s => s.metadata? table = some m) ids) (hstep : Happens allowed c c') :
    c'.Guarded (fun s => s.metadata? table = some m) ids := by
  cases hstep with
  | @asked α _ k v hv =>
    refine Coordinator.guards_run (fun q hq call hcall => ?_) (fun _ id _ => hallowed α v hv id) c h
    exact Store.preserves_of_sparesMetadata (Coordinator.sparesMetadata_of_routed hq table hcall) m
  | @called α _ id v hv => exact h.call id (hallowed α v hv id)
  | read read range ids => exact Run.guards_openAll read range ids c h
  | waited t => exact h.advanceTo t
  | other hstores hlate => exact h.of_stores hstores hlate

/-- **Metadata are still there** where nobody has tried to change them. -/
theorem Guarded.sparing {ids : List ReplicaId}
    (h : c.Guarded (fun s => s.metadata? table = some m) ids)
    (hsince : Relation.ReflTransGen (Sparing table) c c') :
    c'.Guarded (fun s => s.metadata? table = some m) ids := by
  induction hsince with
  | refl => exact h
  | tail _ hstep ih =>
    exact ih.happens (fun _ _ hv _ _ => Store.preserves_of_sparesMetadata hv m) hstep

/-- **What goes on by itself leaves metadata alone**, whatever has happened. -/
theorem Guarded.anything (h : c.Guarded (fun s => s.metadata? table = some m) [])
    (hbefore : Relation.ReflTransGen Anything c c') :
    c'.Guarded (fun s => s.metadata? table = some m) [] := by
  induction hbefore with
  | refl => exact h
  | tail _ hstep ih => exact ih.happens (fun _ _ _ _ hid => absurd hid List.not_mem_nil) hstep

theorem stores_updateReplica (c : Cluster) (id : ReplicaId) {f : Replica → Replica}
    (hf : ∀ r, (f r).store = r.store) : (c.updateReplica id f).stores = c.stores := by
  funext other
  unfold stores updateReplica
  dsimp only
  rw [ExtTreeMap.getElem?_modify]
  split
  · rename_i heq
    rw [LawfulEqOrd.eq_of_compare heq, Option.map_map]
    exact congrArg (fun g => Option.map g _) (funext hf)
  · rfl

/-- A replica is told to behave differently. -/
theorem Sparing.updateReplica (c : Cluster) (id : ReplicaId) {f : Replica → Replica}
    (hf : ∀ r, (f r).store = r.store) : Sparing table c (c.updateReplica id f) :=
  .other (c.stores_updateReplica id hf) rfl

/-- The cluster when a request has been counted. -/
def counted (c : Cluster) (operation : String) : Cluster :=
  { c with telemetry := c.telemetry.count (·.startRequest operation) }

end Cluster

/-- A request is counted. -/
theorem Run.count_ends (operation : String) (c : Cluster) :
    (Run.count (·.startRequest operation)).Ends c fun _ c' => c' = c.counted operation :=
  .ended rfl rfl

namespace Coordinator

/-- How a side effect on all replicas ends: it has been done on those before the first that fails, whose
failure is the answer, and where no other call is on its way the stores are otherwise as they were. -/
structure BroadcastEnds (k : Coordinator) (v : Verb Unit) (c : Cluster) : Prop where
  returns : c.deadline = none → ∃ result c', (k.run v).run.run c = (.ok result, c')
  ends : ∀ result c', (k.run v).run.run c = (.ok result, c') →
    (c.counted v.operation).Broadcasts v k.placement.replicas result c'
  stores : c.late = [] → ∀ result c', (k.run v).run.run c = (.ok result, c') →
    ∃ applied rest, k.placement.replicas = applied ++ rest ∧ (result = .ok () ↔ rest = []) ∧
      c'.stores = applied.foldl (Cluster.doneOn v) c.stores

/-- How reading the metadata `m` of a table ends: with `m` unless all replicas fail, and otherwise with
the failure of the last one. -/
structure MetadataRead (k : Coordinator) (table : TableName) (m : Bytes) (c : Cluster) : Prop where
  returns : c.deadline = none → ∃ result c', (k.run (.getMetadata table)).run.run c = (.ok result, c')
  answered : (∃ id ∈ k.placement.replicas, c.refusal id = none) →
    ∀ result c', (k.run (.getMetadata table)).run.run c = (.ok result, c') → result = .ok m
  failed : (∀ id ∈ k.placement.replicas, c.refusal id ≠ none) →
    ∀ result c', (k.run (.getMetadata table)).run.run c = (.ok result, c') →
      ∃ last e, k.placement.replicas.getLast? = some last ∧ c.refusal last = some e ∧
        result = .error e

/-- **A side effect is done on the replicas before the first that fails.** -/
theorem broadcastEnds {v : Verb Unit} (hv : v.OnEveryReplica) (k : Coordinator) (c : Cluster) :
    k.BroadcastEnds v c := by
  have hends : (k.run v).Ends c ((c.counted v.operation).Broadcasts v k.placement.replicas) := by
    rw [run_eq_broadcast hv]
    unfold broadcast
    refine (Run.count_ends v.operation c).bind fun _ c₁ hc₁ => ?_
    subst hc₁
    exact ⟨rfl, Run.applyToAll_ends _ _ _⟩
  exact ⟨hends.returns, fun _ _ => hends.of_returned, fun hlate _ _ hreturned =>
    (hends.of_returned hreturned).stores hlate⟩

/-- Metadata that all replicas have are read. -/
theorem metadataRead_of_guarded (hne : k.placement.replicas ≠ [])
    (h : c.Guarded (fun s => s.metadata? table = some m) k.placement.replicas) :
    k.MetadataRead table m c := by
  have hcounted : c.SameFaults (c.counted "get_metadata_for_table") := .of_eq rfl rfl
  have hguarded : (c.counted "get_metadata_for_table").Guarded _ _ := h.frame rfl h.late
  have hends : (k.run (.getMetadata table)).Ends c fun result _ =>
      (c.counted "get_metadata_for_table").FallsBack m (.noReplicas "get_metadata_for_table")
        k.placement.replicas result := by
    show (k.fallback (.getMetadata table)).Ends c _
    unfold fallback
    refine (Run.count_ends "get_metadata_for_table" c).bind fun _ c₁ hc₁ => ?_
    subst hc₁
    exact ⟨rfl, Run.firstAnswer_ends _ (fun _ => Store.run_getMetadata) hguarded (fun _ hid => hid) _⟩
  refine ⟨hends.returns, fun ⟨id, hid, hopen⟩ _ _ hreturned => ?_, fun hall _ _ hreturned => ?_⟩
  · exact (hends.of_returned hreturned).answered ⟨id, hid, (hcounted.refusal id).trans hopen⟩
  · have hlast := List.getLast?_eq_some_getLast hne
    obtain ⟨e, he⟩ := Option.ne_none_iff_exists'.1 (hall _ (List.getLast_mem hne))
    refine ⟨_, e, hlast, he, (hends.of_returned hreturned).failed (fun id hid => ?_) _ e hlast
      ((hcounted.refusal _).trans he)⟩
    rw [hcounted.refusal]
    exact hall id hid

/-- **Metadata that have been written are read**, from whichever replica answers. Whatever has happened
before, no call that is still on its way then takes them away, if there was none at first. -/
theorem metadata_read (k : Coordinator) (hne : k.placement.replicas ≠ []) :
    (∀ v : Verb Unit, v.OnEveryReplica → ∀ c, k.BroadcastEnds v c) ∧
    ∀ (table : TableName) (m : Bytes) (c c₀ c₁ c₂ : Cluster),
      (∀ call ∈ c.late, call.verb.SparesMetadata table) →
      Relation.ReflTransGen Cluster.Anything c c₀ →
      (k.run (.putMetadata table m)).run.run c₀ = (.ok (.ok ()), c₁) →
      Relation.ReflTransGen (Cluster.Sparing table) c₁ c₂ → k.MetadataRead table m c₂ := by
  refine ⟨fun v hv => broadcastEnds hv k, fun table m c c₀ c₁ c₂ hlate hbefore hput hsince => ?_⟩
  have hfirst : c.Guarded (fun s => s.metadata? table = some m) [] :=
    ⟨fun call hcall => Store.preserves_of_sparesMetadata (hlate call hcall) m,
      fun _ hid => absurd hid List.not_mem_nil⟩
  have hcounted : (c₀.counted "put_metadata_for_table").Guarded
      (fun s => s.metadata? table = some m) [] :=
    (hfirst.anything hbefore).frame rfl (hfirst.anything hbefore).late
  have hwritten : c₁.Guarded (fun s => s.metadata? table = some m) k.placement.replicas := by
    cases (broadcastEnds (v := .putMetadata table m) trivial k c₀).ends _ _ hput with
    | everywhere happlied =>
      exact happlied.guarded (Store.preserves_putMetadata table m)
        (fun s hok => Store.metadata?_putMetadata hok) hcounted
  exact metadataRead_of_guarded hne (hwritten.sparing hsince)

/-- A table is emptied, its metadata are written, it is created again, and the first replica goes down.
The second one still has them. -/
theorem metadata_read_pair : pairCoordinator.placement.replicas ≠ [] ∧
    ∃ c₀, Relation.ReflTransGen Cluster.Anything pair c₀ ∧
    ∃ c₁, (pairCoordinator.run (.putMetadata "t" [1])).run.run c₀ = (.ok (.ok ()), c₁) ∧
    ∃ c₂, Relation.ReflTransGen (Cluster.Sparing "t") c₁ c₂ ∧ c₂.refusal "a" ≠ none ∧
      ∃ c₃, (pairCoordinator.run (.getMetadata "t")).run.run c₂ = (.ok (.ok [1]), c₃) := by
  have hne : pairCoordinator.placement.replicas ≠ [] := by decide
  obtain ⟨-, hread⟩ := pairCoordinator.metadata_read hne
  let c₀ := ((pairCoordinator.run (.truncateTable "t")).run.run pair).2
  let c₁ := ((pairCoordinator.run (.putMetadata "t" [1])).run.run c₀).2
  let created := ((pairCoordinator.run (.createTable "t" 7)).run.run c₁).2
  let c₂ := created.updateReplica "a" fun r => { r with faults := { outage := some .error } }
  have hbefore : Relation.ReflTransGen Cluster.Anything pair c₀ :=
    .single (.asked pairCoordinator (v := .truncateTable "t") trivial)
  have hput : (pairCoordinator.run (.putMetadata "t" [1])).run.run c₀ = (.ok (.ok ()), c₁) := rfl
  have hsince : Relation.ReflTransGen (Cluster.Sparing "t") c₁ c₂ :=
    (Relation.ReflTransGen.single (.asked pairCoordinator (v := .createTable "t" 7) trivial)).tail
      (.updateReplica created "a" fun _ => rfl)
  have hdeadline : c₂.deadline = none := rfl
  have hdown : c₂.refusal "a" = some (.replicaCall "chaos: replica marked as failed") := rfl
  have hopen : ∃ id ∈ pairCoordinator.placement.replicas, c₂.refusal id = none :=
    ⟨"b", by decide, rfl⟩
  -- from here on it does not matter how the clusters come about
  clear_value c₀ c₁ c₂
  have hmeta := hread "t" [1] pair c₀ c₁ c₂ (fun _ hcall => absurd hcall List.not_mem_nil) hbefore hput
    hsince
  obtain ⟨result, c₃, hreturned⟩ := hmeta.returns hdeadline
  obtain rfl := hmeta.answered hopen result c₃ hreturned
  exact ⟨hne, c₀, hbefore, c₁, hput, c₂, hsince, hdown ▸ Option.some_ne_none _, c₃, hreturned⟩

end Coordinator

end QuorumStore
