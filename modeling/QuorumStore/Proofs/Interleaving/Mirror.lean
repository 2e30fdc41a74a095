import QuorumStore.Proofs.Cluster.Time
import QuorumStore.Proofs.Interleaving.Run

/-!
# A cluster as a world of interleaved operations

A cluster in virtual time is one of the ways in which calls can interleave. Its replicas have the
stores of a world, and its calls that go on by themselves are calls of earlier operations that have
not reached their replicas.

* `Mirrors`: the cluster and the world agree.
* `Later`: from one world to another earlier operations have gone on.
* `Mirrors.turn`, `Mirrors.turns`: **while time passes earlier operations go on.**
* `Mirrors.frame`: what keeps a cluster and a world in agreement.
-/

namespace QuorumStore.Interleaving

open Std

/-- A call of an operation has not reached its replica. -/
def Unserved (k : Coordinator) (w : World) (key : Nat × Nat) (id : ReplicaId) {τ : Type}
    (verb : Verb τ) : Prop :=
  ∃ op, w.operations[key.1]? = some op ∧ key.2 ∉ op.served.map Completion.ticket ∧
    ∃ verb' : Verb op.α, (key.2, id, verb') ∈ k.calls op.verb ∧
      (⟨op.α, verb'⟩ : (α : Type) × Verb α) = ⟨τ, verb⟩

/-- The listed calls are different calls that have not reached their replicas: each is named by its
operation and its number. -/
structure Pending (k : Coordinator) (w : World) (keys : List (Nat × Nat)) (calls : List LateCall) :
    Prop where
  nodup : keys.Nodup
  unserved : List.Forall₂ (fun key call => Unserved k w key call.replica call.verb) keys calls

/-- The stores of the replicas are those of the world. -/
def SameStores (w : World) (c : Cluster) : Prop :=
  ∀ (id : ReplicaId) (r : Replica), c.replicas[id]? = some r → w.stores id = r.store

/-- A cluster and a world agree: they have the same stores, and what goes on by itself in the
cluster are calls of the first `n` operations. -/
structure Mirrors (k : Coordinator) (n : Nat) (w : World) (c : Cluster) : Prop where
  stores : SameStores w c
  late : ∃ keys, Pending k w keys c.late ∧ ∀ key ∈ keys, key.1 < n

/-- Between two worlds at most one call has reached its replica, the named one. -/
structure ServedOnly (key : Nat × Nat) (w w' : World) : Prop where
  length : w'.operations.length = w.operations.length
  served : ∀ (i : Nat) (op : Operation), w.operations[i]? = some op → ∃ more,
    w'.operations[i]? = some { op with served := op.served ++ more } ∧
      ∀ d ∈ more, (i, d.ticket) = key

/-- From one world to a later one calls of the first `n` operations have reached their replicas, and
nothing else has happened. -/
structure Later (k : Coordinator) (n : Nat) (w w' : World) : Prop where
  reaches : Reaches k w w'
  length : w'.operations.length = w.operations.length
  unchanged : ∀ (i : Nat) (op : Operation), n ≤ i → w.operations[i]? = some op →
    w'.operations[i]? = some op

variable {k : Coordinator} {w w' w'' : World} {c : Cluster} {i n : Nat} {id : ReplicaId}
  {keys keys' : List (Nat × Nat)} {key key' : Nat × Nat} {calls : List LateCall}

section Served

theorem Later.refl (k : Coordinator) (n : Nat) (w : World) : Later k n w w :=
  ⟨.refl, rfl, fun _ _ _ hop => hop⟩

theorem Later.trans (h : Later k n w w') (h' : Later k n w' w'') : Later k n w w'' :=
  ⟨h.reaches.trans h'.reaches, h'.length.trans h.length,
    fun i op hi hop => h'.unchanged i op hi (h.unchanged i op hi hop)⟩

/-- The call of an earlier operation reaches its replica. -/
theorem ServedOnly.later (h : ServedOnly key w w') (hstep : Step k w w') (hkey : key.1 < n) :
    Later k n w w' := by
  refine ⟨.single hstep, h.length, fun i op hi hop => ?_⟩
  obtain ⟨more, hop', hmore⟩ := h.served i op hop
  cases more with
  | nil =>
    rw [List.append_nil] at hop'
    exact hop'
  | cons d more =>
    have hnamed := hmore d List.mem_cons_self
    exact absurd (congrArg Prod.fst hnamed) (Nat.ne_of_gt (Nat.lt_of_lt_of_le hkey hi))

theorem Unserved.mono {τ : Type} {verb : Verb τ} (h : Unserved k w key id verb)
    (hserved : ServedOnly key' w w') (hne : key ≠ key') : Unserved k w' key id verb := by
  obtain ⟨op, hop, hnew, verb', hcall, hverb⟩ := h
  obtain ⟨more, hop', hmore⟩ := hserved.served key.1 op hop
  refine ⟨_, hop', ?_, verb', hcall, hverb⟩
  rw [List.map_append, List.mem_append, not_or]
  refine ⟨hnew, fun hmem => ?_⟩
  obtain ⟨d, hd, hticket⟩ := List.mem_map.1 hmem
  have hnamed := hmore d hd
  rw [hticket] at hnamed
  exact hne hnamed

theorem Pending.imp (h : Pending k w keys calls) (himp : ∀ key ∈ keys, ∀ {id : ReplicaId}
    {τ : Type} {verb : Verb τ}, Unserved k w key id verb → Unserved k w' key id verb) :
    Pending k w' keys calls :=
  ⟨h.nodup, ((List.forall₂_and_left _ _).2 ⟨himp, h.unserved⟩).imp fun _ _ hkey => hkey.1 hkey.2⟩

theorem Pending.mono (h : Pending k w keys calls) (hserved : ServedOnly key w w') (hnew : key ∉ keys) :
    Pending k w' keys calls :=
  h.imp fun _ hkey _ _ _ hunserved => hunserved.mono hserved fun heq => hnew (heq ▸ hkey)

/-- A call that has not reached its replica can do so. -/
theorem Unserved.serve {τ : Type} {verb : Verb τ} (h : Unserved k w key id verb) :
    ∃ w', Step k w w' ∧
      w'.stores = Function.update w.stores id (Store.run verb (w.stores id)).2 ∧
      ServedOnly key w w' := by
  obtain ⟨op, hop, hnew, verb', hcall, hverb⟩ := h
  cases hverb
  refine ⟨_, .serve key.1 op key.2 id verb' hop hcall hnew, rfl, ?_, fun j op' hop' => ?_⟩
  · exact List.length_set
  · by_cases hj : key.1 = j
    · subst hj
      obtain rfl := Option.some.inj (hop.symm.trans hop')
      refine ⟨[⟨key.2, id, (Store.run verb' (w.stores id)).1⟩], ?_, fun d hd => ?_⟩
      · exact List.getElem?_set_self (List.getElem?_eq_some_iff.1 hop).1
      · rw [List.mem_singleton.1 hd]
    · refine ⟨[], ?_, fun d hd => absurd hd List.not_mem_nil⟩
      rw [List.append_nil]
      exact (List.getElem?_set_ne hj).trans hop'

end Served

section Late

/-- One replica is changed, and nothing but its store in the world. -/
theorem SameStores.insert {c' : Cluster} (h : SameStores w c) {r : Replica}
    (hreplicas : c'.replicas = c.replicas.insert id r) (hid : w'.stores id = r.store)
    (hothers : ∀ id' ≠ id, w'.stores id' = w.stores id') : SameStores w' c' := by
  intro id' r' hr'
  rw [hreplicas, ExtTreeMap.getElem?_insert] at hr'
  by_cases heq : id = id'
  · subst heq
    rw [if_pos compare_self] at hr'
    rw [hid, Option.some.inj hr']
  · rw [if_neg fun hc => heq (LawfulEqOrd.eq_of_compare hc)] at hr'
    rw [hothers id' (Ne.symm heq)]
    exact h id' r' hr'

/-- What a call that reaches a store of the cluster does there, it does in the world. -/
theorem SameStores.call {τ : Type} {verb : Verb τ} (h : SameStores w c) {r : Replica}
    (hr : c.replicas[id]? = some r)
    (hstores : w'.stores = Function.update w.stores id (Store.run verb (w.stores id)).2) :
    (c.call id verb).1 = (Store.run verb (w.stores id)).1 ∧ SameStores w' (c.call id verb).2 := by
  rw [Cluster.call_of_some hr]
  rw [h id r hr] at hstores ⊢
  refine ⟨rfl, h.insert rfl ?_ fun id' hne => ?_⟩
  · rw [hstores, Function.update_self]
    rfl
  · rw [hstores, Function.update_of_ne hne]

/-- A call is put between the others. -/
theorem forall₂_enqueue {R : Nat × Nat → LateCall → Prop} {call : LateCall}
    (h : List.Forall₂ R keys calls) (hcall : R key call) :
    ∃ keys', List.Forall₂ R keys' (Cluster.enqueue call calls) ∧ keys'.Perm (key :: keys) := by
  induction h with
  | nil => exact ⟨[key], .cons hcall .nil, .refl _⟩
  | @cons a b as bs hab hrest ih =>
    unfold Cluster.enqueue
    split
    · obtain ⟨keys', hkeys', hperm⟩ := ih
      exact ⟨a :: keys', .cons hab hkeys', (hperm.cons a).trans (List.Perm.swap key a as)⟩
    · exact ⟨key :: a :: as, .cons hcall (.cons hab hrest), .refl _⟩

theorem Pending.enqueue (h : Pending k w keys calls) {call : LateCall}
    (hcall : Unserved k w key call.replica call.verb) (hnew : key ∉ keys) :
    ∃ keys', Pending k w keys' (Cluster.enqueue call calls) ∧ keys'.Perm (key :: keys) := by
  obtain ⟨keys', hkeys', hperm⟩ := forall₂_enqueue h.unserved hcall
  exact ⟨keys', ⟨hperm.nodup_iff.2 (List.nodup_cons.2 ⟨hnew, h.nodup⟩), hkeys'⟩, hperm⟩

/-- Further calls go on by themselves. -/
theorem Pending.enqueueAll {left : List LateCall} (h : Pending k w keys calls)
    (hleft : Pending k w keys' left) (hnew : ∀ key ∈ keys', key ∉ keys) :
    ∃ all, Pending k w all (left.foldl (fun late call => Cluster.enqueue call late) calls) ∧
      all.Perm (keys' ++ keys) := by
  obtain ⟨hnodup, hunserved⟩ := hleft
  induction hunserved generalizing keys calls with
  | nil => exact ⟨keys, h, .refl _⟩
  | @cons key call keys' left hcall _ ih =>
    obtain ⟨hfresh, hnodup⟩ := List.nodup_cons.1 hnodup
    obtain ⟨first, hfirst, hperm⟩ := h.enqueue hcall (hnew key List.mem_cons_self)
    obtain ⟨all, hall, hperm'⟩ := ih hfirst (fun key' hkey' hmem => by
      rcases List.mem_cons.1 (hperm.mem_iff.1 hmem) with rfl | hmem
      · exact hfresh hkey'
      · exact hnew key' (List.mem_cons_of_mem _ hkey') hmem) hnodup
    refine ⟨all, hall, hperm'.trans ((hperm.append_left keys').trans ?_)⟩
    exact List.perm_middle

/-- **While a call has its turn earlier operations go on**: it reaches its store, if it is lost the
world has nothing to do, and if it moves back among the others it keeps its name. -/
theorem Mirrors.turn {c' : Cluster} (h : Mirrors k n w c) (hturn : c.Turn c') :
    ∃ w', Later k n w w' ∧ Mirrors k n w' c' := by
  obtain ⟨keys, hp, hkeys⟩ := h.late
  -- the first of the calls is called by the first of the names
  have hcases : ∀ {first : LateCall} {rest : List LateCall}, c.late = first :: rest →
      ∃ key keys', Unserved k w key first.replica first.verb ∧ key ∉ keys' ∧ key.1 < n ∧
        (∀ key ∈ keys', key.1 < n) ∧ Pending k w keys' rest := by
    intro first rest hlate
    rw [hlate] at hp
    cases keys with
    | nil => cases hp.unserved
    | cons key keys =>
      obtain ⟨hnew, hnodup⟩ := List.nodup_cons.1 hp.nodup
      obtain ⟨hfirst, hrest⟩ := List.forall₂_cons.1 hp.unserved
      obtain ⟨hkey, hkeys⟩ := List.forall_mem_cons.1 hkeys
      exact ⟨key, keys, hfirst, hnew, hkey, hkeys, hnodup, hrest⟩
  cases hturn with
  | clock t => exact ⟨w, .refl k n w, h.stores, keys, hp, hkeys⟩
  | lost hlate =>
    obtain ⟨-, keys', -, -, -, hkeys', hp'⟩ := hcases hlate
    exact ⟨w, .refl k n w, h.stores, keys', hp', hkeys'⟩
  | @moved first rest due fate hlate =>
    obtain ⟨key, keys', hfirst, hnew, hkey, hkeys', hp'⟩ := hcases hlate
    let moved : LateCall := { first with due, phase := .waiting fate }
    have hmoved : Unserved k w key moved.replica moved.verb := hfirst
    obtain ⟨all, hall, hperm⟩ := hp'.enqueue hmoved hnew
    refine ⟨w, .refl k n w, h.stores, all, hall, fun key' hkey' => ?_⟩
    rcases List.mem_cons.1 (hperm.mem_iff.1 hkey') with rfl | hkey'
    · exact hkey
    · exact hkeys' key' hkey'
  | @reached first rest hlate =>
    obtain ⟨key, keys', hfirst, hnew, hkey, hkeys', hp'⟩ := hcases hlate
    let others : Cluster := { c with late := rest }
    have hs : SameStores w others := h.stores
    cases hr : others.replicas[first.replica]? with
    | none =>
      rw [Cluster.call_of_none (c := others) hr]
      exact ⟨w, .refl k n w, hs, keys', hp', hkeys'⟩
    | some r =>
      obtain ⟨w', hstep, hstores, hserved⟩ := hfirst.serve
      refine ⟨w', hserved.later hstep hkey, (hs.call hr hstores).2, keys', ?_, hkeys'⟩
      rw [Cluster.late_call]
      exact hp'.mono hserved hnew

/-- **While time passes earlier operations go on.** -/
theorem Mirrors.turns {c' : Cluster} (h : Mirrors k n w c) (hturns : c.Turns c') :
    ∃ w', Later k n w w' ∧ Mirrors k n w' c' := by
  refine hturns.keeps (I := fun c' => ∃ w', Later k n w w' ∧ Mirrors k n w' c') ?_ ⟨w, .refl k n w, h⟩
  rintro c c' ⟨w', hlater, hmirrors⟩ hturn
  obtain ⟨w'', hlater', hmirrors'⟩ := hmirrors.turn hturn
  exact ⟨w'', hlater.trans hlater', hmirrors'⟩

/-- Whether a call has reached its replica is said by its operation alone. -/
theorem Unserved.frame {τ : Type} {verb : Verb τ} (h : Unserved k w key id verb)
    (hsame : w'.operations[key.1]? = w.operations[key.1]?) : Unserved k w' key id verb := by
  obtain ⟨op, hop, hrest⟩ := h
  exact ⟨op, hsame.trans hop, hrest⟩

/-- Agreement says nothing of the operations from the `n`th on, and only of replicas and calls that
go on by themselves. -/
theorem Mirrors.frame {c' : Cluster} (h : Mirrors k n w c) (hs : SameStores w' c')
    (hlate : c'.late = c.late) (hops : ∀ j < n, w'.operations[j]? = w.operations[j]?) :
    Mirrors k n w' c' := by
  obtain ⟨keys, hp, hkeys⟩ := h.late
  refine ⟨hs, keys, ?_, hkeys⟩
  rw [hlate]
  exact hp.imp fun key hkey _ _ _ hcall => hcall.frame (hops _ (hkeys key hkey))

end Late

end QuorumStore.Interleaving
