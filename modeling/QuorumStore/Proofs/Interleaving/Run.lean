import Mathlib.Logic.Function.Basic
import Mathlib.Logic.Relation
import QuorumStore.Proofs.Routed

/-!
# Operations side by side

Operations of a coordinator run side by side. Their calls reach the replicas in any order, each
atomically, also after their operation has been answered; and the coordinator learns of the end of
each call at any later moment, or takes it for failed, whether or not it has reached its replica.

* `Operation`, `World`: what has become of an operation's calls, and the state of all replicas.
* `Step`, `Reaches`: what can happen next, and in the end.
* `World.Answered`: the coordinator has returned an answer.
* `World.Applied`: a call of an operation has succeeded at a replica.
* `Step.inversion`, `Step.effect`: all that a step can do to replicas and applied calls.
* `applied_of_answered`: behind an answer there is a quorum of applied calls.
-/

namespace QuorumStore.Interleaving

open Std Quorum

/-- An operation that the coordinator has been asked for. -/
structure Operation where
  {α : Type}
  /-- What was asked for. -/
  verb : Verb α
  /-- The calls that have reached the stores of their replicas, with the answers they got. -/
  served : List (Completion α) := []
  /-- The calls whose end the coordinator knows of, in the order in which it has learnt of it. -/
  seen : List (Completion α) := []

/-- The stores of the replicas, and all operations so far. -/
structure World where
  /-- The store of each replica. -/
  stores : ReplicaId → Store
  /-- The operations, in the order in which they were asked for. -/
  operations : List Operation

namespace World

/-- A call of an operation reaches the store of its replica. -/
def serve (w : World) (i : Nat) (op : Operation) (ticket : Nat) (replica : ReplicaId)
    (verb : Verb op.α) : World where
  stores := Function.update w.stores replica (Store.run verb (w.stores replica)).2
  operations :=
    let result := (Store.run verb (w.stores replica)).1
    w.operations.set i { op with served := op.served ++ [{ ticket, replica, result }] }

/-- The coordinator learns of the end of a call. -/
def learn (w : World) (i : Nat) (op : Operation) (d : Completion op.α) : World :=
  { w with operations := w.operations.set i { op with seen := op.seen ++ [d] } }

end World

/-- What can happen next, with a given coordinator. -/
inductive Step (c : Coordinator) : World → World → Prop where
  /-- The coordinator is asked for something. -/
  | ask {α : Type} {w : World} (verb : Verb α) :
    Step c w { w with operations := w.operations ++ [{ verb }] }
  /-- A call reaches the store of its replica, which every call does at most once. -/
  | serve {w : World} (i : Nat) (op : Operation) (ticket : Nat) (replica : ReplicaId)
      (verb : Verb op.α) (hop : w.operations[i]? = some op)
      (hcall : (ticket, replica, verb) ∈ c.calls op.verb)
      (hnew : ticket ∉ op.served.map Completion.ticket) :
    Step c w (w.serve i op ticket replica verb)
  /-- The coordinator learns of the answer that a call got. -/
  | learn {w : World} (i : Nat) (op : Operation) (d : Completion op.α)
      (hop : w.operations[i]? = some op) (hserved : d ∈ op.served)
      (hnew : d.ticket ∉ op.seen.map Completion.ticket) : Step c w (w.learn i op d)
  /-- The coordinator takes a call for failed. -/
  | fail {w : World} (i : Nat) (op : Operation) (ticket : Nat) (replica : ReplicaId)
      (verb : Verb op.α) (e : Failure) (hop : w.operations[i]? = some op)
      (hcall : (ticket, replica, verb) ∈ c.calls op.verb)
      (hnew : ticket ∉ op.seen.map Completion.ticket) :
    Step c w (w.learn i op { ticket, replica, result := .error e })

/-- What can happen in the end. -/
abbrev Reaches (c : Coordinator) : World → World → Prop := Relation.ReflTransGen (Step c)

/-- A call of the operation has succeeded at a replica, and the call and its answer have a
property. -/
def Operation.Applied (c : Coordinator) (op : Operation) (id : ReplicaId)
    (P : ∀ {α : Type}, Verb α → α → Prop) : Prop :=
  ∃ d ∈ op.served, d.replica = id ∧
    ∃ verb a, (d.ticket, d.replica, verb) ∈ c.calls op.verb ∧ d.result = .ok a ∧ P verb a

/-- What is known of every operation: its calls are planned, the coordinator has learnt of each at
most once, and of a success only after it has happened. -/
structure Operation.Sound (c : Coordinator) (op : Operation) : Prop where
  planned : ∀ d ∈ op.served ++ op.seen, ∃ verb, (d.ticket, d.replica, verb) ∈ c.calls op.verb
  nodup : (op.seen.map Completion.ticket).Nodup
  served_of_ok : ∀ d ∈ op.seen, d.result.isOk = true → d ∈ op.served

namespace World

variable {α : Type}

/-- The coordinator has returned `a` for operation `i`, which is `v`. -/
def Answered (c : Coordinator) (w : World) (i : Nat) (v : Verb α) (a : α) : Prop :=
  ∃ q served seen, c.routed? v = some q ∧ w.operations[i]? = some { verb := v, served, seen } ∧
    (q.request.execute {} seen).1 = .ok a

/-- A call of operation `i` has succeeded at a replica, and the call and its answer have a
property. -/
def Applied (c : Coordinator) (w : World) (i : Nat) (id : ReplicaId)
    (P : ∀ {α : Type}, Verb α → α → Prop) : Prop :=
  ∃ op, w.operations[i]? = some op ∧ ∃ d ∈ op.served, d.replica = id ∧
    ∃ verb a, (d.ticket, d.replica, verb) ∈ c.calls op.verb ∧ d.result = .ok a ∧ P verb a

end World

variable {c : Coordinator} {w w' w₀ : World} {i : Nat} {id : ReplicaId}

/-- The calls of an operation have different numbers. -/
theorem calls_unique {α : Type} {v : Verb α} {ticket : Nat} {replica replica' : ReplicaId}
    {verb verb' : Verb α} (h : (ticket, replica, verb) ∈ c.calls v)
    (h' : (ticket, replica', verb') ∈ c.calls v) : replica = replica' ∧ verb = verb' := by
  cases hq : c.routed? v with
  | none =>
    unfold Coordinator.calls at h h'
    rw [hq] at h h'
    simp only [List.mem_map, Prod.exists, List.mk_mem_zipIdx_iff_getElem?, Prod.mk.injEq] at h h'
    obtain ⟨_, _, hget, rfl, rfl, rfl⟩ := h
    obtain ⟨_, _, hget', rfl, rfl, rfl⟩ := h'
    exact ⟨Option.some.inj (hget.symm.trans hget'), rfl⟩
  | some q =>
    obtain ⟨group, hget, hverb⟩ := (Coordinator.mem_calls_iff hq).1 h
    obtain ⟨group', hget', hverb'⟩ := (Coordinator.mem_calls_iff hq).1 h'
    simp only at hget hget' hverb hverb'
    rw [hget] at hget'
    cases hget'
    exact ⟨rfl, hverb.trans hverb'.symm⟩

section Sound

theorem Operation.sound_ask {α : Type} (c : Coordinator) (verb : Verb α) :
    ({ verb } : Operation).Sound c :=
  ⟨fun _ hd => absurd hd List.not_mem_nil, List.nodup_nil, fun _ hd => absurd hd List.not_mem_nil⟩

theorem Operation.Sound.serve {op : Operation} (h : op.Sound c) {d : Completion op.α} {verb : Verb op.α}
    (hcall : (d.ticket, d.replica, verb) ∈ c.calls op.verb) :
    ({ op with served := op.served ++ [d] } : Operation).Sound c := by
  refine ⟨fun e he => ?_, h.nodup, fun e he hok => ?_⟩
  · simp only [List.append_assoc, List.mem_append, List.mem_singleton] at he
    rcases he with he | he | he
    · exact h.planned e (List.mem_append_left _ he)
    · rw [he]
      exact ⟨verb, hcall⟩
    · exact h.planned e (List.mem_append_right _ he)
  · exact List.mem_append_left _ (h.served_of_ok e he hok)

theorem Operation.Sound.learn {op : Operation} (h : op.Sound c) {d : Completion op.α}
    (hcall : ∃ verb, (d.ticket, d.replica, verb) ∈ c.calls op.verb)
    (hnew : d.ticket ∉ op.seen.map Completion.ticket)
    (hserved : d.result.isOk = true → d ∈ op.served) :
    ({ op with seen := op.seen ++ [d] } : Operation).Sound c := by
  refine ⟨fun e he => ?_, ?_, fun e he hok => ?_⟩
  · simp only [List.mem_append, List.mem_singleton] at he
    rcases he with he | he | he
    · exact h.planned e (List.mem_append_left _ he)
    · exact h.planned e (List.mem_append_right _ he)
    · rw [he]
      exact hcall
  · rw [List.map_append, List.nodup_append]
    refine ⟨h.nodup, List.nodup_singleton _, fun n hn m hm heq => ?_⟩
    rw [List.map_singleton, List.mem_singleton] at hm
    exact hnew (hm ▸ heq ▸ hn)
  · rcases List.mem_append.1 he with he | he
    · exact h.served_of_ok e he hok
    · rw [List.mem_singleton.1 he] at hok ⊢
      exact hserved hok

theorem sound_step (hstep : Step c w w') (h : ∀ op ∈ w.operations, op.Sound c) :
    ∀ op ∈ w'.operations, op.Sound c := by
  cases hstep with
  | ask verb =>
    intro op hop
    rcases List.mem_append.1 hop with hop | hop
    · exact h op hop
    · rw [List.mem_singleton.1 hop]
      exact Operation.sound_ask c verb
  | serve i op ticket replica verb hop hcall hnew =>
    intro op' hop'
    rcases List.mem_or_eq_of_mem_set hop' with hold | rfl
    · exact h op' hold
    · exact (h op (List.mem_of_getElem? hop)).serve hcall
  | learn i op d hop hserved hnew =>
    intro op' hop'
    rcases List.mem_or_eq_of_mem_set hop' with hold | rfl
    · exact h op' hold
    · have hop := h op (List.mem_of_getElem? hop)
      exact hop.learn (hop.planned d (List.mem_append_left _ hserved)) hnew fun _ => hserved
  | fail i op ticket replica verb e hop hcall hnew =>
    intro op' hop'
    rcases List.mem_or_eq_of_mem_set hop' with hold | rfl
    · exact h op' hold
    · exact (h op (List.mem_of_getElem? hop)).learn ⟨verb, hcall⟩ hnew fun hok => by cases hok

/-- Every operation is sound in what is reached from a world without operations. -/
theorem sound_of_reaches (hempty : w₀.operations = []) (h : Reaches c w₀ w) :
    ∀ op ∈ w.operations, op.Sound c := by
  induction h with
  | refl =>
    intro op hop
    rw [hempty] at hop
    cases hop
  | tail _ hstep ih => exact sound_step hstep ih

end Sound

section Steps

/-- What an operation has had applied is that of its served calls. -/
theorem World.applied_iff {op : Operation} {P : ∀ {α : Type}, Verb α → α → Prop}
    (hop : w.operations[i]? = some op) : w.Applied c i id P ↔ op.Applied c id P := by
  constructor
  · rintro ⟨op', hop', happlied⟩
    obtain rfl := Option.some.inj (hop.symm.trans hop')
    exact happlied
  · exact fun happlied => ⟨op, hop, happlied⟩

/-- Where one operation changes, the others have had applied what they had. -/
theorem World.applied_set_iff {op op' : Operation} {P : ∀ {α : Type}, Verb α → α → Prop} {j : Nat}
    {stores : ReplicaId → Store} (hop : w.operations[i]? = some op) :
    World.Applied c ⟨stores, w.operations.set i op'⟩ j id P ↔
      if j = i then op'.Applied c id P else w.Applied c j id P := by
  by_cases hj : j = i
  · subst hj
    rw [if_pos rfl]
    refine World.applied_iff ?_
    exact List.getElem?_set_self (List.getElem?_eq_some_iff.1 hop).1
  · rw [if_neg hj]
    unfold World.Applied
    rw [List.getElem?_set_ne (Ne.symm hj)]

/-- An operation of which the coordinator only learns has had applied what it had. -/
theorem World.applied_learn_iff {op : Operation} {d : Completion op.α}
    {P : ∀ {α : Type}, Verb α → α → Prop} {j : Nat} (hop : w.operations[i]? = some op) :
    (w.learn i op d).Applied c j id P ↔ w.Applied c j id P := by
  refine (World.applied_set_iff hop).trans ?_
  split
  · rename_i hj
    subst hj
    exact (World.applied_iff hop).symm
  · exact Iff.rfl

/-- **All that a step can do to replicas and applied calls**: nothing, or one replica answers one call
of one operation, which has not reached it before and is applied if it succeeds. -/
theorem Step.inversion (hstep : Step c w w') :
    (w'.stores = w.stores ∧ ∀ (j : Nat) (id : ReplicaId) (P : ∀ {α : Type}, Verb α → α → Prop),
      w'.Applied c j id P ↔ w.Applied c j id P) ∨
    ∃ i op, w.operations[i]? = some op ∧ ∃ (ticket : Nat) (id : ReplicaId) (verb : Verb op.α),
      (ticket, id, verb) ∈ c.calls op.verb ∧ ticket ∉ op.served.map Completion.ticket ∧
      w'.stores = Function.update w.stores id (Store.run verb (w.stores id)).2 ∧
      ∀ (j : Nat) (id' : ReplicaId) (P : ∀ {α : Type}, Verb α → α → Prop),
        w'.Applied c j id' P ↔ w.Applied c j id' P ∨
          j = i ∧ id' = id ∧ ∃ a, (Store.run verb (w.stores id)).1 = .ok a ∧ P verb a := by
  cases hstep with
  | ask v =>
    refine Or.inl ⟨rfl, fun j id P => ⟨?_, ?_⟩⟩
    · rintro ⟨op, hop, d, hd, hrest⟩
      rw [List.getElem?_append] at hop
      split at hop
      · exact ⟨op, hop, d, hd, hrest⟩
      · obtain rfl := List.mem_singleton.1 (List.mem_of_getElem? hop)
        cases hd
    · rintro ⟨op, hop, happlied⟩
      refine ⟨op, ?_, happlied⟩
      rw [List.getElem?_append_left (List.getElem?_eq_some_iff.1 hop).1]
      exact hop
  | serve i op ticket id verb hop hcall hnew =>
    refine Or.inr ⟨i, op, hop, ticket, id, verb, hcall, hnew, rfl, fun j id' P => ?_⟩
    refine (World.applied_set_iff hop).trans ?_
    by_cases hj : j = i
    · subst hj
      rw [if_pos rfl, World.applied_iff hop]
      constructor
      · rintro ⟨d, hd, rfl, verb', a, hcall', hres, hP⟩
        rcases List.mem_append.1 hd with hold | hlast
        · exact Or.inl ⟨d, hold, rfl, verb', a, hcall', hres, hP⟩
        · obtain rfl := List.mem_singleton.1 hlast
          obtain ⟨-, rfl⟩ := calls_unique hcall hcall'
          exact Or.inr ⟨rfl, rfl, a, hres, hP⟩
      · rintro (⟨d, hd, hrest⟩ | ⟨-, rfl, a, hres, hP⟩)
        · exact ⟨d, List.mem_append_left _ hd, hrest⟩
        · exact ⟨_, List.mem_append_right _ List.mem_cons_self, rfl, verb, a, hcall, hres, hP⟩
    · rw [if_neg hj]
      exact (or_iff_left fun h => hj h.1).symm
  | learn i op d hop hserved hnew =>
    exact Or.inl ⟨rfl, fun j id P => World.applied_learn_iff hop⟩
  | fail i op ticket replica verb e hop hcall hnew =>
    exact Or.inl ⟨rfl, fun j id P => World.applied_learn_iff hop⟩

/-- **What a step does to replicas and applied calls**: nothing, or one replica answers one call of
one operation, which is applied if it succeeds. -/
theorem Step.effect (hstep : Step c w w') :
    (w'.stores = w.stores ∧ ∀ (j : Nat) (id : ReplicaId) (P : ∀ {α : Type}, Verb α → α → Prop),
      w'.Applied c j id P → w.Applied c j id P) ∨
    ∃ i op, w.operations[i]? = some op ∧ ∃ (ticket : Nat) (id : ReplicaId) (verb : Verb op.α),
      (ticket, id, verb) ∈ c.calls op.verb ∧
      w'.stores = Function.update w.stores id (Store.run verb (w.stores id)).2 ∧
      ∀ (j : Nat) (id' : ReplicaId) (P : ∀ {α : Type}, Verb α → α → Prop),
        w'.Applied c j id' P → w.Applied c j id' P ∨
          j = i ∧ id' = id ∧ ∃ a, (Store.run verb (w.stores id)).1 = .ok a ∧ P verb a := by
  rcases hstep.inversion with ⟨hstores, happlied⟩ |
    ⟨i, op, hop, ticket, id, verb, hcall, -, hstores, happlied⟩
  · exact Or.inl ⟨hstores, fun j id P => (happlied j id P).1⟩
  · exact Or.inr ⟨i, op, hop, ticket, id, verb, hcall, hstores, fun j id' P => (happlied j id' P).1⟩

/-- No operation goes away in a step, and what was asked for does not change. -/
theorem Step.exists_operation (hstep : Step c w w') {k : Nat} {op : Operation}
    (hop : w.operations[k]? = some op) {Q : ∀ {α : Type}, Verb α → Prop} (hQ : Q op.verb) :
    ∃ op', w'.operations[k]? = some op' ∧ Q op'.verb := by
  have hset : ∀ {i : Nat} {old new : Operation}, w.operations[i]? = some old →
      (Q old.verb → Q new.verb) → ∃ op', (w.operations.set i new)[k]? = some op' ∧ Q op'.verb := by
    intro i old new hold hverb
    by_cases hik : i = k
    · subst hik
      obtain rfl := Option.some.inj (hold.symm.trans hop)
      exact ⟨new, List.getElem?_set_self (List.getElem?_eq_some_iff.1 hop).1, hverb hQ⟩
    · exact ⟨op, (List.getElem?_set_ne hik).trans hop, hQ⟩
  cases hstep with
  | ask v =>
    exact ⟨op, (List.getElem?_append_left (List.getElem?_eq_some_iff.1 hop).1).trans hop, hQ⟩
  | serve i old ticket id verb hold hcall hnew => exact hset hold fun hQ => hQ
  | learn i old d hold hserved hnew => exact hset hold fun hQ => hQ
  | fail i old ticket id verb e hold hcall hnew => exact hset hold fun hQ => hQ

/-- What is true of all operations after a step was true of all before. -/
theorem Step.forall_operations (hstep : Step c w w') {Q : ∀ {α : Type}, Verb α → Prop}
    (h : ∀ op ∈ w'.operations, Q op.verb) : ∀ op ∈ w.operations, Q op.verb := by
  intro op hop
  obtain ⟨k, hk⟩ := List.mem_iff_getElem?.1 hop
  by_contra hnot
  obtain ⟨op', hop', hnot'⟩ := hstep.exists_operation (Q := fun v => ¬ Q v) hk hnot
  exact hnot' (h op' (List.mem_of_getElem? hop'))

/-- An operation that has not been asked for has had nothing applied. -/
theorem World.Applied.lt_length {P : ∀ {α : Type}, Verb α → α → Prop} (h : w.Applied c i id P) :
    i < w.operations.length := by
  obtain ⟨op, hop, -⟩ := h
  exact (List.getElem?_eq_some_iff.1 hop).1

end Steps

/-- **Behind an answer there is a quorum of applied calls for each of its units**, at replicas of
the unit's row, whose answers were merged. -/
theorem applied_of_answered {α : Type} {v : Verb α} {q : c.Routed α} {a : α}
    (hsound : ∀ op ∈ w.operations, op.Sound c) (hq : c.routed? v = some q)
    (hans : w.Answered c i v a) {u : q.υ} (hu : u ∈ q.request.units) :
    ∃ parts : List α, a = parts.foldl q.request.merge q.request.empty ∧
    ∃ A ⊆ (c.placement.replicasOf (q.rowOf u)).toFinset, q.request.policy.success ≤ A.card ∧
      ∀ id ∈ A, ∃ group, (∀ k ∈ group, k ∈ q.keys) ∧ u ∈ group.map q.request.unitOf ∧
        ∃ part ∈ parts, ∀ P : ∀ {α : Type}, Verb α → α → Prop,
          P (q.request.call group) part → w.Applied c i id P := by
  obtain ⟨q', served, seen, hq', hop, hexec⟩ := hans
  obtain rfl := Option.some.inj (hq.symm.trans hq')
  have hop_sound := hsound _ (List.mem_of_getElem? hop)
  -- what the coordinator has learnt of are different calls of the plan
  have hplanned : ∀ d ∈ seen, ∃ group, q.request.plan[d.ticket]? = some (d.replica, group) := by
    intro d hd
    obtain ⟨verb, hcall⟩ := hop_sound.planned d (List.mem_append_right _ hd)
    obtain ⟨group, hget, -⟩ := (Coordinator.mem_calls_iff hq).1 hcall
    exact ⟨group, hget⟩
  have harr : q.request.Arrived seen := by
    refine ⟨hop_sound.nodup, fun d hd => ?_⟩
    obtain ⟨group, hget⟩ := hplanned d hd
    exact (List.getElem?_eq_some_iff.1 hget).1
  obtain ⟨pre, post, rfl, hmerged, hquorum⟩ := QuorumRequest.of_execute_ok harr {} hexec
  have hgen : q.request.Genuine pre := fun d hd => hplanned d (List.mem_append_left _ hd)
  refine ⟨_, hmerged, q.request.backers pre u, QuorumRequest.backers_subset q.plan_eq hgen, ?_, ?_⟩
  · rw [QuorumRequest.card_backers q.ids_nodup harr.of_append.nodup hgen]
    exact hquorum u hu
  · intro id hid
    obtain ⟨d, hd, rfl, hcov, hok⟩ := QuorumRequest.mem_backers.1 hid
    obtain ⟨⟨id', group⟩, hget, hunit⟩ := QuorumRequest.covers_iff.1 hcov
    obtain ⟨group', hget'⟩ := hgen d hd
    rw [hget] at hget'
    cases hget'
    have hserved := hop_sound.served_of_ok d (List.mem_append_left _ hd) hok
    have hcall : (d.ticket, d.replica, q.request.call group) ∈ c.calls v :=
      (Coordinator.mem_calls_iff hq).2 ⟨group, hget, rfl⟩
    cases hres : d.result with
    | error e => rw [hres] at hok; cases hok
    | ok part =>
      refine ⟨group, q.mem_keys hget, hunit, part, ?_, fun P hP => ?_⟩
      · exact List.mem_filterMap.2 ⟨d, hd, by rw [hres]; rfl⟩
      · exact ⟨_, hop, d, hserved, rfl, _, part, hcall, hres, hP⟩

/-- A coordinator with three replicas of every row, of which two make a quorum. -/
def trio : Coordinator where
  factors :=
    { replication := 3, read := 2, write := 2
      read_pos := Nat.two_pos, write_pos := Nat.two_pos }
  placement :=
    { version := 1
      replicasOf := fun _ => ["a", "b", "c"]
      planRange := fun _ => []
      replicas := ["a", "b", "c"] }

/-- All replicas have the same empty table. -/
def trioStart : World where
  stores := fun _ => { tables := (∅ : ExtTreeMap TableName Table).insert "t" { maxValueSize := 8 } }
  operations := []

end QuorumStore.Interleaving
