import QuorumStore.Proofs.Routed

/-!
# The metadata of a table

The metadata of a table goes with the table. Apart from being replaced it is lost when the table is
dropped, alone or with all others; data that are written or truncated, and a table that is created where
there is one, leave it.

* `Verb.SparesMetadata`, `Store.preserves_of_sparesMetadata`: what leaves the metadata of a table.
* `Coordinator.sparesMetadata_of_routed`: requests to a quorum leave all metadata.
* `Store.metadata?_putMetadata`, `Store.run_getMetadata`: metadata are written and read.
-/

namespace QuorumStore

open Std

namespace Verb

/-- Whether a verb leaves the metadata of a table: it neither replaces them nor drops the table. -/
def SparesMetadata {α : Type} : Verb α → TableName → Prop
  | .putMetadata table _, table' => table ≠ table'
  | .dropTable table, table' => table ≠ table'
  | .teardown, _ => False
  | _, _ => True

end Verb

namespace Store

variable {α : Type} {s : Store} {table table' : TableName} {m : Bytes}
  {f : Table → Except Failure Table}

/-- The metadata of a table, if it exists. -/
def metadata? (s : Store) (table : TableName) : Option Bytes := s.tables[table]?.map Table.metadata

theorem metadata?_insert {t : Table} :
    ({ s with tables := s.tables.insert table t } : Store).metadata? table' =
      if table = table' then some t.metadata else s.metadata? table' := by
  unfold metadata?
  rw [ExtTreeMap.getElem?_insert]
  by_cases h : table = table'
  · rw [if_pos (LawfulEqOrd.compare_eq_iff_eq.2 h), if_pos h]
    rfl
  · rw [if_neg fun hc => h (LawfulEqOrd.eq_of_compare hc), if_neg h]

/-- A change of a table leaves the metadata of all tables if it leaves those of the table. -/
theorem metadata?_update (hkeep : ∀ t t', f t = .ok t' → table = table' → t'.metadata = t.metadata) :
    (s.update table f).2.metadata? table' = s.metadata? table' := by
  rcases s.update_cases table f with ⟨e, heq⟩ | ⟨t, t', ht, hf, heq⟩
  · rw [heq]
  · rw [heq, metadata?_insert]
    split
    · rename_i hsame
      rw [hkeep t t' hf hsame, ← hsame]
      unfold metadata?
      rw [ht]
      rfl
    · rfl

/-- **A verb that spares the metadata of a table leaves them as they are.** -/
theorem preserves_of_sparesMetadata {v : Verb α} (hspares : v.SparesMetadata table) (m : Bytes) :
    v.Preserves fun s => s.metadata? table = some m := by
  intro s hm
  have hstore : ∀ {other : TableName} {f : Table → Except Failure Table}
      {entries : List (Cell × Value)}, (∀ t t', f t = .ok t' → t' = t.store entries) →
      (s.update other f).2.metadata? table = some m := by
    intro other f entries hf
    rw [metadata?_update fun t t' ht _ => by rw [hf t t' ht]; rfl]
    exact hm
  cases v with
  | put _ values ts => exact hstore fun _ _ => Table.eq_store_of_write
  | putWithTimestamps _ entries => exact hstore fun _ _ => Table.eq_store_of_write
  | putUnlessExists _ values => exact hstore fun _ _ hf => (Table.of_writeUnlessExists hf).1
  | addSentinels _ cells => exact hstore fun _ _ hf => (Except.ok.inj hf).symm
  | delete | truncateTable =>
    exact (metadata?_update fun t t' hf _ => by rw [← Except.ok.inj hf]).trans hm
  | putMetadata => exact (metadata?_update fun _ _ _ hsame => absurd hsame hspares).trans hm
  | createTable other maxValueSize =>
    -- a table that exists is not created anew
    unfold metadata? at hm ⊢
    show (s.tables.insertIfNew other { maxValueSize })[table]?.map _ = some m
    obtain ⟨t, ht, -⟩ := Option.map_eq_some_iff.1 hm
    rw [ExtTreeMap.getElem?_insertIfNew, if_neg, hm]
    rintro ⟨heq, hnew⟩
    rw [LawfulEqOrd.eq_of_compare heq, ExtTreeMap.mem_iff_isSome_getElem?, ht] at hnew
    exact hnew rfl
  | dropTable other =>
    unfold metadata? at hm ⊢
    show (s.tables.erase other)[table]?.map _ = some m
    rw [ExtTreeMap.getElem?_erase, if_neg fun heq => hspares (LawfulEqOrd.eq_of_compare heq), hm]
  | teardown => exact hspares.elim
  -- the others leave the tables alone
  | getRows | get | getLatestTimestamps | getAllTimestamps | tableNames | getMetadata | allMetadata
  | compact | prepareFresh | close => exact hm

theorem run_putMetadata (s : Store) (table : TableName) (m : Bytes) :
    run (.putMetadata table m) s = s.update table fun t => .ok { t with metadata := m } := rfl

/-- Where metadata are written they are there. -/
theorem metadata?_putMetadata (hok : (run (.putMetadata table m) s).1 = .ok ()) :
    (run (.putMetadata table m) s).2.metadata? table = some m := by
  rw [run_putMetadata] at hok ⊢
  rcases s.update_cases table fun t => .ok { t with metadata := m } with
    ⟨e, heq⟩ | ⟨t, t', -, hf, heq⟩
  · rw [heq] at hok
    cases hok
  · rw [heq, metadata?_insert, if_pos rfl, ← Except.ok.inj hf]

/-- What metadata there are does not change when they are written again. -/
theorem preserves_putMetadata (table : TableName) (m : Bytes) :
    (Verb.putMetadata table m).Preserves fun s => s.metadata? table = some m := by
  intro s hm
  obtain ⟨t, ht, -⟩ := Option.map_eq_some_iff.1 hm
  refine metadata?_putMetadata ?_
  rw [run_putMetadata]
  unfold update
  rw [ht]

/-- Where there are metadata they are the answer. -/
theorem run_getMetadata (hm : s.metadata? table = some m) :
    (run (.getMetadata table) s).1 = .ok m := by
  obtain ⟨t, ht, hmeta⟩ := Option.map_eq_some_iff.1 hm
  show s.query table Table.metadata = .ok m
  unfold query
  rw [ht, ← hmeta]

end Store

namespace Coordinator

variable {c : Coordinator} {α : Type} {v : Verb α}

/-- **The calls of a request to a quorum spare all metadata**: they are about data. -/
theorem sparesMetadata_of_routed {q : c.Routed α} (hq : c.routed? v = some q) (table : TableName)
    {call : Nat × ReplicaId × Verb α} (hcall : call ∈ q.request.calls) :
    call.2.2.SparesMetadata table := by
  rw [← calls_eq hq] at hcall
  obtain ⟨group, -, hverb⟩ := (mem_calls_iff hq).1 hcall
  rw [hverb]
  cases v with
  | getRows | get | getLatestTimestamps | getAllTimestamps | put | putWithTimestamps
  | putUnlessExists | delete | addSentinels => cases hq; trivial
  | _ => cases hq

end Coordinator

end QuorumStore
