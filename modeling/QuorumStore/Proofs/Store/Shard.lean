import QuorumStore.Proofs.Store.Restrict

/-!
# Shards of a store

A verb about the keys of some rows finds and leaves in the shard with these rows what the whole verb
finds and leaves there in the whole store.

* `Store.restrict`: the shard with the given rows.
* `Verb.restrict`, `Verb.rows`: the verb about the keys in the given rows, and the rows of its keys.
* `Verb.Edit`, `Verb.edit?`: the verbs that change a table key by key.
* `Verb.Edit.run_restrict`, `Verb.Edit.isOk_of_each`: **such a verb does to each shard what it does to
  the store**, and succeeds if for each key it does in some shard.
* `Store.run_restrict_of_changesTable`: changes of whole tables.
* `Store.run_restrict_of_pointRead`: **a read of a shard finds its part of the answer.**
-/

namespace QuorumStore

open Std

variable {α : Type} {p : Bytes → Bool} {s : Store} {table : TableName} {cell : Cell}
  {ts : Timestamp}

namespace Store

/-- The store with the cells in the rows that are kept. -/
def restrict (p : Bytes → Bool) (s : Store) : Store := ⟨s.tables.map fun _ t => t.restrict p⟩

theorem getElem?_restrict (s : Store) (table : TableName) :
    (s.restrict p).tables[table]? = s.tables[table]?.map (·.restrict p) :=
  ExtTreeMap.getElem?_map

theorem mem_restrict : table ∈ (s.restrict p).tables ↔ table ∈ s.tables := by
  rw [ExtTreeMap.mem_iff_isSome_getElem?, ExtTreeMap.mem_iff_isSome_getElem?, getElem?_restrict,
    Option.isSome_map]

theorem ext_tables {s s' : Store} (h : ∀ table : TableName, s.tables[table]? = s'.tables[table]?) :
    s = s' := by
  cases s
  cases s'
  exact congrArg Store.mk (ExtTreeMap.ext_getElem? h)

theorem version?_restrict (s : Store) (table : TableName) (cell : Cell) (ts : Timestamp) :
    (s.restrict p).version? table cell ts =
      if p cell.row = true then s.version? table cell ts else none := by
  unfold version?
  rw [getElem?_restrict]
  cases s.tables[table]? with
  | none => simp
  | some t => exact t.data.version?_restrict cell ts

/-- A shard of a store with one table replaced. -/
theorem restrict_insert (s : Store) (table : TableName) (t : Table) :
    ({ s with tables := s.tables.insert table t } : Store).restrict p =
      { s.restrict p with tables := (s.restrict p).tables.insert table (t.restrict p) } := by
  refine ext_tables fun other => ?_
  rw [getElem?_restrict, ExtTreeMap.getElem?_insert, ExtTreeMap.getElem?_insert, getElem?_restrict]
  split <;> rfl

/-- Putting a table where it is changes nothing. -/
theorem insert_getElem? {t : Table} (h : s.tables[table]? = some t) :
    ({ s with tables := s.tables.insert table t } : Store) = s := by
  refine ext_tables fun other => ?_
  rw [ExtTreeMap.getElem?_insert]
  split
  · rename_i heq
    rw [← LawfulEqOrd.eq_of_compare heq, h]
  · rfl

end Store

namespace Verb

/-- The verb about the keys in the rows that are kept. -/
def restrict (p : Bytes → Bool) : Verb α → Verb α
  | .getRows table rows columns t => .getRows table (rows.filter p) columns t
  | .get table cells => .get table (cells.filter fun cell _ => p cell.row)
  | .getLatestTimestamps table cells =>
    .getLatestTimestamps table (cells.filter fun cell _ => p cell.row)
  | .getAllTimestamps table cells t =>
    .getAllTimestamps table (cells.filter fun cell => p cell.row) t
  | .put table values ts => .put table (values.filter fun cell _ => p cell.row) ts
  | .putWithTimestamps table entries =>
    .putWithTimestamps table (entries.filter fun e => p e.1.row)
  | .putUnlessExists table values =>
    .putUnlessExists table (values.filter fun cell _ => p cell.row)
  | .delete table versions => .delete table (versions.filter fun v => p v.1.row)
  | .addSentinels table cells => .addSentinels table (cells.filter fun cell => p cell.row)
  | v => v

/-- The rows of the keys of a verb. -/
def rows : Verb α → List Bytes
  | .getRows _ rows _ _ => rows
  | .get _ cells => cells.toList.map (·.1.row)
  | .getLatestTimestamps _ cells => cells.toList.map (·.1.row)
  | .getAllTimestamps _ cells _ => cells.toList.map Cell.row
  | .put _ values _ => values.toList.map (·.1.row)
  | .putWithTimestamps _ entries => entries.map (·.1.row)
  | .putUnlessExists _ values => values.toList.map (·.1.row)
  | .delete _ versions => versions.map (·.1.row)
  | .addSentinels _ cells => cells.toList.map Cell.row
  | _ => []

/-- A verb that changes a table key by key. -/
structure Edit (v : Verb α) where
  {κ : Type}
  /-- The table. -/
  table : TableName
  /-- The row of a key. -/
  row : κ → Bytes
  /-- The keys. -/
  keys : List κ
  /-- What keys change. -/
  change : List κ → Table → Except Failure Table
  keywise : Table.Keywise row change
  rows_eq : v.rows = keys.map row
  run : ∀ s, (Store.run v s).2 = (s.update table (change keys)).2 ∧
    (Store.run v s).1.isOk = (s.update table (change keys)).1.isOk
  run_part : ∀ p s, (Store.run (v.restrict p) s).2 =
      (s.update table (change (keys.filter fun key => p (row key)))).2 ∧
    (Store.run (v.restrict p) s).1.isOk =
      (s.update table (change (keys.filter fun key => p (row key)))).1.isOk

end Verb

theorem entriesAt_filter (values : ExtTreeMap Cell Bytes) (ts : Timestamp) :
    entriesAt (values.filter fun cell _ => p cell.row) ts =
      (entriesAt values ts).filter fun e => p e.1.row := by
  unfold entriesAt
  rw [ExtTreeMap.toList_filter, List.filter_map]
  rfl

theorem rows_entriesAt (values : ExtTreeMap Cell Bytes) (ts : Timestamp) :
    values.toList.map (·.1.row) = (entriesAt values ts).map (·.1.row) := by
  unfold entriesAt
  rw [List.map_map]
  rfl

theorem rows_sentinels (cells : ExtTreeSet Cell) :
    cells.toList.map Cell.row = (cells.toList.map (·, Value.sentinel)).map (·.1.row) := by
  rw [List.map_map]
  rfl

theorem sentinels_filter (cells : ExtTreeSet Cell) :
    (cells.filter fun cell => p cell.row).toList.map (·, Value.sentinel) =
      (cells.toList.map (·, Value.sentinel)).filter fun e => p e.1.row := by
  rw [ExtTreeSet.toList_filter, List.filter_map]
  rfl

namespace Verb

/-- The verbs that change a table key by key. -/
def edit? : (v : Verb α) → Option v.Edit
  | .put table values ts => some
    { κ := Cell × Value, table, row := fun e => e.1.row, keys := entriesAt values ts
      change := fun entries t => t.write entries
      keywise := Table.keywise_write
      rows_eq := rows_entriesAt values ts
      run := fun _ => ⟨rfl, rfl⟩
      run_part := fun p s => by rw [← entriesAt_filter]; exact ⟨rfl, rfl⟩ }
  | .putWithTimestamps table entries => some
    { κ := Cell × Value, table, row := fun e => e.1.row, keys := entries
      change := fun entries t => t.write entries
      keywise := Table.keywise_write
      rows_eq := rfl
      run := fun _ => ⟨rfl, rfl⟩
      run_part := fun _ _ => ⟨rfl, rfl⟩ }
  | .putUnlessExists table values => some
    { κ := Cell × Value, table, row := fun e => e.1.row, keys := entriesAt values 0
      change := fun entries t => t.writeUnlessExists entries
      keywise := Table.keywise_writeUnlessExists
      rows_eq := rows_entriesAt values 0
      run := fun _ => ⟨rfl, rfl⟩
      run_part := fun p s => by rw [← entriesAt_filter]; exact ⟨rfl, rfl⟩ }
  | .delete table versions => some
    { κ := Cell × Timestamp, table, row := fun v => v.1.row, keys := versions
      change := _
      keywise := Table.keywise_remove
      rows_eq := rfl
      run := fun _ => ⟨rfl, rfl⟩
      run_part := fun _ _ => ⟨rfl, rfl⟩ }
  | .addSentinels table cells => some
    { κ := Cell × Value, table, row := fun e => e.1.row, keys := cells.toList.map (·, Value.sentinel)
      change := fun entries t => .ok (t.store entries)
      keywise := Table.keywise_store
      rows_eq := rows_sentinels cells
      run := fun _ => ⟨rfl, rfl⟩
      run_part := fun p s => by rw [← sentinels_filter]; exact ⟨rfl, rfl⟩ }
  | _ => none

end Verb

/-- A change of a table that is the same change of its shard. -/
theorem Store.update_restrict {f g : Table → Except Failure Table}
    (hfg : ∀ t t', f t = .ok t' → g (t.restrict p) = .ok (t'.restrict p))
    (hok : (s.update table f).1.isOk = true) :
    ((s.restrict p).update table g).2 = (s.update table f).2.restrict p := by
  rcases s.update_cases table f with ⟨e, heq⟩ | ⟨t, t', ht, hf, heq⟩
  · rw [heq] at hok
    cases hok
  · rw [heq, Store.restrict_insert]
    unfold Store.update
    rw [Store.getElem?_restrict, ht]
    simp only [Option.map_some, hfg t t' hf]

namespace Verb.Edit

variable {v : Verb α} (e : v.Edit)
include e

/-- Without keys nothing is changed. -/
theorem update_nil (s : Store) : (s.update e.table (e.change [])).2 = s := by
  rcases s.update_cases e.table (e.change []) with ⟨_, heq⟩ | ⟨t, t', ht, hchange, heq⟩
  · rw [heq]
  · rw [e.keywise.nil] at hchange
    cases hchange
    rw [heq]
    exact Store.insert_getElem? ht

theorem run_of_rows_nil (h : v.rows = []) (s : Store) : (Store.run v s).2 = s := by
  rw [e.rows_eq, List.map_eq_nil_iff] at h
  rw [(e.run s).1, h]
  exact e.update_nil s

/-- A verb without keys in the rows that are kept changes nothing. -/
theorem run_restrict_of_none (h : ∀ row ∈ v.rows, ¬ p row = true) (s : Store) :
    (Store.run (v.restrict p) s).2 = s := by
  have hkeys : (e.keys.filter fun key => p (e.row key)) = [] := by
    refine List.filter_eq_nil_iff.2 fun key hkey => h _ ?_
    rw [e.rows_eq]
    exact List.mem_map_of_mem hkey
  rw [(e.run_part p s).1, hkeys]
  exact e.update_nil s

/-- A verb with all of its keys in the rows that are kept is the same verb. -/
theorem run_restrict_of_all (h : ∀ row ∈ v.rows, p row = true) (s : Store) :
    (Store.run (v.restrict p) s).2 = (Store.run v s).2 := by
  have hkeys : (e.keys.filter fun key => p (e.row key)) = e.keys := by
    refine List.filter_eq_self.2 fun key hkey => h _ ?_
    rw [e.rows_eq]
    exact List.mem_map_of_mem hkey
  rw [(e.run_part p s).1, hkeys, ← (e.run s).1]

/-- **A verb that succeeds does to each shard what it does to the store.** -/
theorem run_restrict (hok : (Store.run v s).1.isOk = true) :
    (Store.run (v.restrict p) (s.restrict p)).2 = (Store.run v s).2.restrict p := by
  rw [(e.run s).2] at hok
  rw [(e.run s).1, (e.run_part p _).1]
  exact Store.update_restrict (e.keywise.restrict p e.keys) hok

/-- **A verb succeeds if for each of its keys it does in some shard with the key.** -/
theorem isOk_of_each (hrows : v.rows ≠ [])
    (h : ∀ row ∈ v.rows, ∃ p : Bytes → Bool, p row = true ∧
      (Store.run (v.restrict p) (s.restrict p)).1.isOk = true) :
    (Store.run v s).1.isOk = true := by
  -- where the verb succeeds in a shard, the shard has the table
  have hpart : ∀ row ∈ v.rows, ∃ (p : Bytes → Bool) (t t' : Table), p row = true ∧
      s.tables[e.table]? = some t ∧
      e.change (e.keys.filter fun key => p (e.row key)) (t.restrict p) = .ok t' := by
    intro row hrow
    obtain ⟨p, hp, hok⟩ := h row hrow
    rw [(e.run_part p _).2] at hok
    rcases (s.restrict p).update_cases e.table
        (e.change (e.keys.filter fun key => p (e.row key))) with ⟨_, heq⟩ | ⟨_, t', ht, hchange, -⟩
    · rw [heq] at hok
      cases hok
    · rw [Store.getElem?_restrict] at ht
      obtain ⟨t, htable, rfl⟩ := Option.map_eq_some_iff.1 ht
      exact ⟨p, t, t', hp, htable, hchange⟩
  obtain ⟨first, hfirst⟩ := List.exists_mem_of_ne_nil _ hrows
  obtain ⟨-, t, -, -, ht, -⟩ := hpart first hfirst
  have heach : ∀ key ∈ e.keys, ∃ p : Bytes → Bool, p (e.row key) = true ∧
      ∃ t', e.change (e.keys.filter fun key => p (e.row key)) (t.restrict p) = .ok t' := by
    intro key hkey
    obtain ⟨p, t₁, t', hp, ht₁, hchange⟩ := hpart (e.row key) (by
      rw [e.rows_eq]
      exact List.mem_map_of_mem hkey)
    rw [ht] at ht₁
    cases ht₁
    exact ⟨p, hp, t', hchange⟩
  obtain ⟨t', ht'⟩ := e.keywise.ok_of_each e.keys t heach
  rw [(e.run s).2]
  unfold Store.update
  rw [ht]
  simp only [ht']
  rfl

end Verb.Edit

section Tables

/-- Whether a verb creates, empties or removes a table. -/
def Verb.ChangesTable : Verb α → Prop
  | .createTable .. => True
  | .dropTable _ => True
  | .truncateTable _ => True
  | _ => False

/-- **A change of a whole table** does to a shard what it does to the store, also where it fails. -/
theorem Store.run_restrict_of_changesTable {v : Verb α} (h : v.ChangesTable) (s : Store) :
    (Store.run v (s.restrict p)).2 = (Store.run v s).2.restrict p := by
  cases v with
  | createTable other maxValueSize =>
    refine ext_tables fun table => ?_
    rw [getElem?_restrict]
    show ((s.restrict p).tables.insertIfNew other _)[table]? =
      (s.tables.insertIfNew other _)[table]?.map _
    simp only [ExtTreeMap.getElem?_insertIfNew, mem_restrict, getElem?_restrict]
    split
    · exact congrArg some (Table.restrict_of_empty rfl).symm
    · rfl
  | dropTable other =>
    refine ext_tables fun table => ?_
    rw [getElem?_restrict]
    show ((s.restrict p).tables.erase other)[table]? = (s.tables.erase other)[table]?.map _
    rw [ExtTreeMap.getElem?_erase, ExtTreeMap.getElem?_erase, getElem?_restrict]
    split <;> rfl
  | truncateTable table =>
    show ((s.restrict p).update table _).2 = (s.update table _).2.restrict p
    unfold update
    rw [getElem?_restrict]
    cases s.tables[table]? with
    | none => rfl
    | some t =>
      simp only [Option.map_some]
      rw [restrict_insert]
      rfl
  | _ => exact h.elim

end Tables

section Reads

namespace Verb

/-- The table that a point read is about. -/
def pointRead? : Verb α → Option TableName
  | .getRows table .. => some table
  | .get table _ => some table
  | .getLatestTimestamps table _ => some table
  | .getAllTimestamps table .. => some table
  | _ => none

/-- The part of an answer that is about the rows that are kept. -/
def cut (p : Bytes → Bool) : Verb α → α → α
  | .getRows .., a => a.filter fun cell _ => p cell.row
  | .get .., a => a.filter fun cell _ => p cell.row
  | .getLatestTimestamps .., a => a.filter fun cell _ => p cell.row
  | .getAllTimestamps .., a => a.filter fun cell _ => p cell.row
  | _, a => a

end Verb

namespace Store

/-- A question about a table whose shard gives part of the answer. -/
theorem query_restrict {β : Type} {f g : Table → β} {part : β → β} {b : β}
    (hg : ∀ t : Table, g (t.restrict p) = part (f t)) (hok : s.query table f = .ok b) :
    (s.restrict p).query table g = .ok (part b) := by
  obtain ⟨t, ht, rfl⟩ := of_query hok
  unfold query
  rw [getElem?_restrict, ht]
  exact congrArg Except.ok (hg t)

theorem latestOf_restrict (t : Table) (cells : ExtTreeMap Cell Timestamp) :
    latestOf (t.restrict p) (cells.filter fun cell _ => p cell.row).toList =
      (latestOf t cells.toList).filter fun cell _ => p cell.row := by
  refine ExtTreeMap.ext_getElem? fun cell => ?_
  rw [getElem?_get, getElem?_filter_row, getElem?_filter_row, getElem?_get]
  split
  · rename_i hp
    refine congrArg _ (funext fun t' => ?_)
    exact (t.data.latestBefore_restrict cell t').trans (if_pos hp)
  · rfl

/-- **A read of a shard finds its part of the answer.** -/
theorem run_restrict_of_pointRead {v : Verb α} {a : α} (h : v.pointRead? = some table)
    (hok : (Store.run v s).1 = .ok a) :
    (Store.run (v.restrict p) (s.restrict p)).1 = .ok (v.cut p a) := by
  cases v with
  | getRows other rows columns t =>
    refine query_restrict (fun tbl => ExtTreeMap.ext_getElem? fun cell => ?_) hok
    refine Eq.trans ?_ (getElem?_filter_row _ cell).symm
    rw [getElem?_getRows, getElem?_getRows, Table.data_restrict, Memtable.latestBefore_restrict]
    by_cases hp : p cell.row = true
    · simp only [List.mem_filter, hp, and_true, if_true]
    · simp only [hp, Bool.false_eq_true, if_false, ite_self]
  | get other cells => exact query_restrict (fun tbl => latestOf_restrict tbl cells) hok
  | getLatestTimestamps other cells =>
    refine query_restrict (fun tbl => ExtTreeMap.ext_getElem? fun cell => ?_) hok
    refine Eq.trans ?_ (getElem?_filter_row _ cell).symm
    rw [latestOf_restrict, ExtTreeMap.getElem?_map, ExtTreeMap.getElem?_map, getElem?_filter_row]
    split <;> rfl
  | getAllTimestamps other cells t =>
    refine query_restrict (fun tbl => ExtTreeMap.ext_getElem? fun cell => ?_) hok
    refine Eq.trans ?_ (getElem?_filter_row _ cell).symm
    rw [getElem?_getAllTimestamps, getElem?_getAllTimestamps, Table.data_restrict]
    by_cases hp : p cell.row = true
    · rw [Memtable.timestampsBefore_restrict hp]
      simp only [mem_filter_row, hp, and_true, if_true]
    · simp only [mem_filter_row, hp, Bool.false_eq_true, and_false, false_and, if_false]
  | _ => cases h

/-- A read is answered where its table exists. -/
theorem exists_answer_of_pointRead {v : Verb α} (h : v.pointRead? = some table)
    (htable : table ∈ s.tables) : ∃ a, (Store.run v s).1 = .ok a := by
  obtain ⟨tbl, htbl⟩ := Option.isSome_iff_exists.1 (ExtTreeMap.mem_iff_isSome_getElem?.1 htable)
  have hquery : ∀ {β : Type} (f : Table → β), s.query table f = .ok (f tbl) := by
    intro β f
    unfold query
    rw [htbl]
  cases v with
  | getRows | get | getLatestTimestamps | getAllTimestamps =>
    cases h
    exact ⟨_, hquery _⟩
  | _ => cases h

/-- A read changes nothing. -/
theorem run_snd_of_pointRead {v : Verb α} (h : v.pointRead? = some table) (s : Store) :
    (Store.run v s).2 = s := by
  cases v with
  | getRows | get | getLatestTimestamps | getAllTimestamps => rfl
  | _ => cases h

end Store

end Reads

end QuorumStore
