import QuorumStore.Proofs.Cluster.Fanout
import QuorumStore.Proofs.Interleaving.Mirror

/-!
# What happens while a request runs

While a request runs on a cluster in virtual time, its calls begin, wait, fail or reach their
stores, and calls of earlier writes reach theirs in between. All this is also done step by step in
a world that the cluster mirrors.

* `Underway`: what holds while a request runs.
* `Underway.fail`, `Underway.answer`, `Underway.turns`: a call fails, or reaches its store; time passes.
* `Carried`, `Carried.step`: **every step of a request is made in the world as well.**
* `Underway.leave`, `Underway.abandon`: the calls go on by themselves.
-/

namespace QuorumStore

open Std Quorum

namespace Interleaving

/-- Operation `i` of a world is `v`, and a cluster mirrors the world as to earlier operations. The
coordinator has learnt of `seen`; the listed calls have neither reached their replicas nor ended. -/
structure Underway {α : Type} (k : Coordinator) (w : World) (c : Cluster) (i : Nat) (v : Verb α)
    (seen : List (Completion α)) (calls : List (Nat × ReplicaId × Verb α)) : Prop where
  mirrors : Mirrors k i w c
  length : w.operations.length = i + 1
  operation : ∃ served, w.operations[i]? = some { verb := v, served, seen } ∧
    ∀ call ∈ calls, call.1 ∉ served.map Completion.ticket
  planned : ∀ call ∈ calls, call ∈ k.calls v
  nodup : (calls.map Prod.fst).Nodup
  unseen : ∀ call ∈ calls, call.1 ∉ seen.map Completion.ticket

variable {α : Type} {k : Coordinator} {w w' : World} {c c' : Cluster} {i : Nat} {v : Verb α}
  {seen : List (Completion α)} {calls calls' : List (Nat × ReplicaId × Verb α)}
  {call : Nat × ReplicaId × Verb α}

/-- Fewer calls can be listed, in any order. -/
theorem Underway.of_subset (h : Underway k w c i v seen calls)
    (hsub : ∀ call ∈ calls', call ∈ calls) (hnodup : (calls'.map Prod.fst).Nodup) :
    Underway k w c i v seen calls' := by
  obtain ⟨served, hop, hunserved⟩ := h.operation
  have hunserved' : ∀ call ∈ calls', call.1 ∉ served.map Completion.ticket :=
    fun call hcall => hunserved call (hsub call hcall)
  exact ⟨h.mirrors, h.length, ⟨served, hop, hunserved'⟩,
    fun call hcall => h.planned call (hsub call hcall), hnodup,
    fun call hcall => h.unseen call (hsub call hcall)⟩

theorem Underway.perm (h : Underway k w c i v seen calls) (hperm : calls.Perm calls') :
    Underway k w c i v seen calls' :=
  h.of_subset (fun _ hcall => hperm.mem_iff.2 hcall) ((hperm.map Prod.fst).nodup_iff.1 h.nodup)

/-- A call ends: it is no longer listed, and nothing but its operation changes. -/
theorem Underway.advance (h : Underway k w c i v seen (call :: calls))
    {served served' : List (Completion α)} {d : Completion α}
    (hop : w.operations[i]? = some { verb := v, served, seen })
    (hop' : w'.operations =
      w.operations.set i { verb := v, served := served', seen := seen ++ [d] })
    (hserved : ∀ e ∈ served', e ∈ served ∨ e.ticket = call.1) (hd : d.ticket = call.1)
    (hstores : SameStores w' c') (hlate : c'.late = c.late) :
    Underway k w' c' i v (seen ++ [d]) calls := by
  have hi : i < w.operations.length := (List.getElem?_eq_some_iff.1 hop).1
  obtain ⟨served₀, hop₀, hunserved⟩ := h.operation
  obtain rfl : served₀ = served := by
    rw [hop] at hop₀
    cases hop₀
    rfl
  obtain ⟨hfresh, hnodup⟩ := List.nodup_cons.1 h.nodup
  have hne : ∀ other ∈ calls, other.1 ≠ call.1 := fun other hother heq =>
    hfresh (heq ▸ List.mem_map_of_mem hother)
  -- earlier operations are as they were, and the other calls have other numbers
  refine ⟨h.mirrors.frame hstores hlate fun j hj => ?_, ?_, ⟨served', ?_, fun other hother => ?_⟩,
    fun other hother => h.planned other (List.mem_cons_of_mem _ hother), hnodup,
    fun other hother => ?_⟩
  · rw [hop', List.getElem?_set_ne (Nat.ne_of_gt hj)]
  · rw [hop', List.length_set, h.length]
  · rw [hop', List.getElem?_set_self hi]
  · intro hmem
    obtain ⟨e, he, heq⟩ := List.mem_map.1 hmem
    rcases hserved e he with hold | hnew
    · exact hunserved other (List.mem_cons_of_mem _ hother) (heq ▸ List.mem_map_of_mem hold)
    · exact hne other hother (heq.symm.trans hnew)
  · rw [List.map_append, List.mem_append, not_or]
    refine ⟨h.unseen other (List.mem_cons_of_mem _ hother), fun hmem => ?_⟩
    rw [List.map_singleton, List.mem_singleton, hd] at hmem
    exact hne other hother hmem

/-- A call fails without having reached its replica. -/
theorem Underway.fail {ticket : Nat} {id : ReplicaId} {verb : Verb α}
    (h : Underway k w c i v seen ((ticket, id, verb) :: calls)) (e : Failure) :
    ∃ w', Reaches k w w' ∧ Underway k w' c i v (seen ++ [⟨ticket, id, .error e⟩]) calls := by
  obtain ⟨served, hop, -⟩ := h.operation
  have hstep := Step.fail (c := k) i _ ticket id verb e hop (h.planned _ List.mem_cons_self)
    (h.unseen _ List.mem_cons_self)
  exact ⟨_, .single hstep, h.advance hop rfl (fun _ => Or.inl) rfl h.mirrors.stores rfl⟩

/-- A call reaches its replica, if there is one, and ends. -/
theorem Underway.answer {ticket : Nat} {id : ReplicaId} {verb : Verb α}
    (h : Underway k w c i v seen ((ticket, id, verb) :: calls)) : ∃ w', Reaches k w w' ∧
      Underway k w' (c.call id verb).2 i v (seen ++ [⟨ticket, id, (c.call id verb).1⟩]) calls := by
  cases hr : c.replicas[id]? with
  | none =>
    rw [Cluster.call_of_none hr]
    exact h.fail _
  | some r =>
    obtain ⟨served, hop, hunserved⟩ := h.operation
    have hi : i < w.operations.length := (List.getElem?_eq_some_iff.1 hop).1
    let op : Operation := { verb := v, served, seen }
    let d : Completion α := ⟨ticket, id, (Store.run verb (w.stores id)).1⟩
    let op' : Operation := { op with served := served ++ [d] }
    let w₁ : World := w.serve i op ticket id verb
    have hserve : Step k w w₁ :=
      .serve i op ticket id verb hop (h.planned _ List.mem_cons_self) (hunserved _ List.mem_cons_self)
    -- the answer is known as soon as it is there
    have hlearn : Step k w₁ (w₁.learn i op' d) :=
      .learn i op' d (List.getElem?_set_self hi) (List.mem_append_right _ List.mem_cons_self)
        (h.unseen _ List.mem_cons_self)
    obtain ⟨hresult, hstores⟩ := h.mirrors.stores.call hr (show w₁.stores = _ from rfl)
    rw [hresult]
    refine ⟨_, (Relation.ReflTransGen.single hserve).tail hlearn, ?_⟩
    refine h.advance hop (List.set_set _) (fun e he => ?_) rfl hstores (c.late_call id verb)
    rcases List.mem_append.1 he with hold | hnew
    · exact Or.inl hold
    · rw [List.mem_singleton.1 hnew]
      exact Or.inr rfl

/-- Clock, deadline and telemetry play no part. -/
theorem Underway.frame (h : Underway k w c i v seen calls) (hreplicas : c'.replicas = c.replicas)
    (hlate : c'.late = c.late) : Underway k w c' i v seen calls := by
  have hstores : SameStores w c' := by
    intro id r hr
    rw [hreplicas] at hr
    exact h.mirrors.stores id r hr
  exact ⟨h.mirrors.frame hstores hlate fun _ _ => rfl, h.length, h.operation, h.planned, h.nodup,
    h.unseen⟩

/-- Time passes, in which calls of earlier operations go on. -/
theorem Underway.turns (h : Underway k w c i v seen calls) (hturns : c.Turns c') :
    ∃ w', Reaches k w w' ∧ Underway k w' c' i v seen calls := by
  obtain ⟨served, hop, hunserved⟩ := h.operation
  obtain ⟨w', hlater, hmirrors⟩ := h.mirrors.turns hturns
  have hop' := hlater.unchanged i _ (Nat.le_refl i) hop
  exact ⟨w', hlater.reaches, hmirrors, hlater.length.trans h.length, ⟨served, hop', hunserved⟩,
    h.planned, h.nodup, h.unseen⟩

/-- The calls of a request that have not ended wait, or have not arrived. -/
def Carried (k : Coordinator) (w : World) (i : Nat) (v : Verb α) (s : Fanout α) : Prop :=
  Underway k w s.cluster i v s.ended (s.waiting.map WaitingCall.planned ++ s.planned)

/-- **Every step of a request** is made in the world as well. -/
theorem Carried.step {κ υ β : Type} {r : QuorumRequest κ υ α β} {s s' : Fanout α}
    (h : Carried k w i v s) (hstep : Fanout.Step r s s') :
    ∃ w', Reaches k w w' ∧ Carried k w' i v s' := by
  unfold Carried at h ⊢
  cases hstep with
  | turn hturn => exact h.turns (.single hturn)
  | refused hplanned =>
    rw [hplanned] at h
    exact (h.perm List.perm_middle).fail _
  | arrived hplanned =>
    rw [hplanned] at h
    exact ⟨w, .refl, h.perm List.perm_middle⟩
  | sorted hsame => exact ⟨w, .refl, h.perm ((hsame.map _).append_right _)⟩
  | failed hwaiting =>
    rw [hwaiting] at h
    exact h.fail _
  | reached hwaiting =>
    rw [hwaiting] at h
    exact h.answer
  | noted => exact ⟨w, .refl, h.frame rfl rfl⟩

/-- **A request runs** in the world as well. -/
theorem Carried.steps {κ υ β : Type} {r : QuorumRequest κ υ α β} {s s' : Fanout α}
    (h : Carried k w i v s) (hsteps : Fanout.Steps r s s') :
    ∃ w', Reaches k w w' ∧ Carried k w' i v s' := by
  refine hsteps.keeps (I := fun s' => ∃ w', Reaches k w w' ∧ Carried k w' i v s') ?_ ⟨w, .refl, h⟩
  rintro s s' ⟨w', hreach, h'⟩ hstep
  obtain ⟨w'', hreach', h''⟩ := h'.step hstep
  exact ⟨w'', hreach.trans hreach', h''⟩

section Leaving

/-- The calls that go on by themselves are all of the listed ones, or none. -/
def Leaves (calls : List (Nat × ReplicaId × Verb α)) (left : List LateCall) : Prop :=
  List.Forall₂ (fun call l => l.replica = call.2.1 ∧
    (⟨α, call.2.2⟩ : (τ : Type) × Verb τ) = ⟨Unit, l.verb⟩) calls left ∨ left = []

theorem leaves_late (mode : Mode α) (calls : List (WaitingCall α)) :
    Leaves (calls.map WaitingCall.planned) (mode.late calls) := by
  cases mode with
  | read => exact Or.inr rfl
  | write =>
    unfold Mode.late
    refine Or.inl (List.forall₂_map_left_iff.2 (List.forall₂_map_right_iff.2 ?_))
    exact List.forall₂_same.2 fun _ _ => ⟨rfl, rfl⟩

theorem leaves_queued (mode : Mode α) (now : Nat) (calls : List (Nat × ReplicaId × Verb α)) :
    Leaves calls (mode.queued now (calls.map Prod.snd)) := by
  cases mode with
  | read => exact Or.inr rfl
  | write =>
    unfold Mode.queued
    refine Or.inl (List.forall₂_map_right_iff.2 (List.forall₂_map_right_iff.2 ?_))
    exact List.forall₂_same.2 fun _ _ => ⟨rfl, rfl⟩

/-- What goes on by itself after a request has not reached its replica. -/
theorem Underway.pending {left : List LateCall} (h : Underway k w c i v seen calls)
    (hleft : Leaves calls left) :
    ∃ keys, Pending k w keys left ∧ ∀ key ∈ keys, key.1 = i := by
  obtain ⟨served, hop, hunserved⟩ := h.operation
  rcases hleft with hleft | rfl
  · refine ⟨calls.map fun call => (i, call.1), ⟨?_, ?_⟩, fun key hkey => ?_⟩
    · have hnodup := h.nodup.map (Prod.mk_right_injective i)
      rw [List.map_map] at hnodup
      exact hnodup
    · rw [List.forall₂_map_left_iff]
      have hcalls : ∀ call ∈ calls, call ∈ k.calls v ∧ call.1 ∉ served.map Completion.ticket :=
        fun call hcall => ⟨h.planned call hcall, hunserved call hcall⟩
      refine ((List.forall₂_and_left _ _).2 ⟨hcalls, hleft⟩).imp fun call l hcall => ?_
      obtain ⟨⟨hplanned, hnew⟩, hid, hverb⟩ := hcall
      rw [hid]
      exact ⟨_, hop, hnew, call.2.2, hplanned, hverb⟩
    · obtain ⟨_, -, rfl⟩ := List.mem_map.1 hkey
      rfl
  · exact ⟨[], ⟨List.nodup_nil, .nil⟩, fun _ hkey => absurd hkey List.not_mem_nil⟩

/-- A request ends: its remaining calls go on by themselves. -/
theorem Underway.leave {left : List LateCall} (h : Underway k w c i v seen calls)
    (hleft : Leaves calls left) : Mirrors k (i + 1) w
      { c with late := left.foldl (fun late call => Cluster.enqueue call late) c.late } := by
  obtain ⟨keys, hp, hkeys⟩ := h.mirrors.late
  obtain ⟨keys', hp', hkeys'⟩ := h.pending hleft
  obtain ⟨all, hall, hperm⟩ := hp.enqueueAll hp' fun key hkey hmem =>
    Nat.ne_of_lt (hkeys key hmem) (hkeys' key hkey)
  refine ⟨h.mirrors.stores, all, hall, fun key hkey => ?_⟩
  rcases List.mem_append.1 (hperm.mem_iff.1 hkey) with hmem | hmem
  · rw [hkeys' key hmem]
    exact Nat.lt_succ_self i
  · exact Nat.lt_succ_of_lt (hkeys key hmem)

end Leaving

/-- A step is abandoned: `left` go on by themselves, and time passes until its deadline. -/
theorem Underway.abandon {left : List LateCall} (h : Underway k w c i v seen calls)
    (hleft : Leaves calls left) (deadline : Nat) : ∃ w', Reaches k w w' ∧
      Mirrors k (i + 1) w'
        ({ c with late := left.foldl (fun late call => Cluster.enqueue call late) c.late }.advanceTo
          deadline) ∧
      w'.operations.length = i + 1 := by
  obtain ⟨w', hlater, hmirrors⟩ := (h.leave hleft).turns (Cluster.turns_advanceTo _ deadline)
  exact ⟨w', hlater.reaches, hmirrors, hlater.length.trans h.length⟩

end Interleaving

end QuorumStore
