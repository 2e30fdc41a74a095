import QuorumStore.Proofs.Store

/-!
# What point reads answer

The answer to a point read is known cell by cell from the versions of the table.

* `Verb.Tells`: the answer to a point read has a version of a cell.
* `Store.latest?`: the latest visible version of a cell.
* `Store.getElem?_getRows`, `Store.getElem?_get`, `Store.getElem?_getAllTimestamps`: **the answers
  to the reads**, cell by cell.
* `Store.stored_of_getRows`, `Store.stored_of_get`, `Store.stored_of_getLatestTimestamps`,
  `Store.mem_getAllTimestamps_iff`: whatever a read returns is stored.
-/

namespace QuorumStore

open Std

variable {cell : Cell} {t ts : Timestamp} {table : TableName} {s : Store}

/-- The answer to a point read has a version of the cell at the timestamp. -/
def Verb.Tells {α : Type} : Verb α → α → TableName → Cell → Timestamp → Prop
  | .getRows table _ _ _, answer, table', cell, ts =>
    table = table' ∧ ∃ x : Value, answer[cell]? = some x ∧ x.timestamp = ts
  | .get table _, answer, table', cell, ts =>
    table = table' ∧ ∃ x : Value, answer[cell]? = some x ∧ x.timestamp = ts
  | .getLatestTimestamps table _, answer, table', cell, ts =>
    table = table' ∧ answer[cell]? = some ts
  | .getAllTimestamps table _ _, answer, table', cell, ts =>
    table = table' ∧ ∃ stamps, answer[cell]? = some stamps ∧ ts ∈ stamps
  | _, _, _, _, _ => False

namespace Store

/-- The latest visible version of a cell. -/
def latest? (s : Store) (table : TableName) (cell : Cell) (t : Timestamp) : Option Value :=
  s.tables[table]?.bind (·.data.latestBefore cell t)

/-- A cell has a visible version exactly if it has one before the time of the read. -/
theorem isSome_latest?_iff :
    (s.latest? table cell t).isSome = true ↔ ∃ ts, ts < t ∧ s.Holds table cell ts := by
  unfold latest?
  simp only [holds_iff]
  cases s.tables[table]? with
  | none => simp
  | some tbl =>
    simp only [Option.bind_some, Option.some.injEq, exists_eq_left']
    constructor
    · intro hsome
      obtain ⟨v, hv⟩ := Option.isSome_iff_exists.1 hsome
      obtain ⟨⟨hversion, hlt⟩, -⟩ := Memtable.latestBefore_eq_some_iff.1 hv
      exact ⟨v.timestamp, hlt, by rw [hversion]; rfl⟩
    · rintro ⟨ts, hlt, hversion⟩
      obtain ⟨v, hv, -⟩ := Memtable.exists_latestBefore hversion hlt
      rw [hv]
      rfl

/-- **A read of rows** answers for the cells of these rows whose columns are kept. -/
theorem getElem?_getRows {tbl : Table} {rows : List Bytes} {columns : ColumnFilter} :
    (latestOf tbl ((cellsOfRows tbl rows columns).map (·, t)))[cell]? =
      if cell.row ∈ rows ∧ columns.keeps cell.column = true then tbl.data.latestBefore cell t
      else none := by
  have hmem : cell ∈ cellsOfRows tbl rows columns ↔
      cell ∈ tbl.data.cells ∧ cell.row ∈ rows ∧ columns.keeps cell.column = true := by
    unfold cellsOfRows
    simp only [List.mem_flatMap, Memtable.mem_rowCells_iff]
    constructor
    · rintro ⟨row, hrow, hcell, rfl, hkeep⟩
      exact ⟨hcell, hrow, hkeep⟩
    · rintro ⟨hcell, hrow, hkeep⟩
      exact ⟨cell.row, hrow, hcell, rfl, hkeep⟩
  by_cases hasked : cell ∈ cellsOfRows tbl rows columns
  · rw [getElem?_latestOf_map hasked, if_pos (hmem.1 hasked).2]
  · have hnone : (latestOf tbl ((cellsOfRows tbl rows columns).map (·, t)))[cell]? = none := by
      refine Option.eq_none_iff_forall_ne_some.2 fun v hv => hasked ?_
      obtain ⟨⟨c, t'⟩, hc, hentry⟩ := List.mem_filterMap.1 (mem_of_getElem?_mapOfList hv)
      obtain ⟨_, hin, heq⟩ := List.mem_map.1 hc
      cases heq
      obtain ⟨_, -, hpair⟩ := Option.map_eq_some_iff.1 hentry
      cases hpair
      exact hin
    rw [hnone]
    split
    · rename_i hselected
      -- a selected cell that is not asked for has no versions
      cases hv : tbl.data.latestBefore cell t with
      | none => rfl
      | some v =>
        obtain ⟨⟨hversion, -⟩, -⟩ := Memtable.latestBefore_eq_some_iff.1 hv
        have hcell := Memtable.mem_cells_of_version? (by rw [hversion]; rfl)
        exact absurd (hmem.2 ⟨hcell, hselected⟩) hasked
    · rfl

/-- **A read of cells** answers for each at its own time. -/
theorem getElem?_get {tbl : Table} {cells : ExtTreeMap Cell Timestamp} :
    (latestOf tbl cells.toList)[cell]? = cells[cell]?.bind (tbl.data.latestBefore cell) := by
  cases hget : cells[cell]? with
  | some t => exact getElem?_latestOf_toList hget
  | none =>
    refine Option.eq_none_iff_forall_ne_some.2 fun v hv => ?_
    obtain ⟨⟨c, t'⟩, hc, hentry⟩ := List.mem_filterMap.1 (mem_of_getElem?_mapOfList hv)
    obtain ⟨_, -, hpair⟩ := Option.map_eq_some_iff.1 hentry
    cases hpair
    rw [ExtTreeMap.mem_toList_iff_getElem?_eq_some, hget] at hc
    cases hc

/-- **A read of all timestamps** answers for the cells that have a visible version. -/
theorem getElem?_getAllTimestamps {tbl : Table} {cells : ExtTreeSet Cell} :
    (ExtTreeMap.ofList
      ((cells.toList.map fun cell => (cell, tbl.data.timestampsBefore cell t)).filter
        fun (_, stamps) => !stamps.isEmpty) compare)[cell]? =
      if cell ∈ cells ∧ (tbl.data.timestampsBefore cell t).isEmpty = false then
        some (tbl.data.timestampsBefore cell t)
      else none := by
  have hentry : ∀ stamps, (cell, stamps) ∈
      (cells.toList.map fun cell => (cell, tbl.data.timestampsBefore cell t)).filter
        (fun (_, stamps) => !stamps.isEmpty) ↔
      (cell ∈ cells ∧ (tbl.data.timestampsBefore cell t).isEmpty = false) ∧
        tbl.data.timestampsBefore cell t = stamps := by
    intro stamps
    rw [List.mem_filter, List.mem_map]
    constructor
    · rintro ⟨⟨c, hc, heq⟩, hfull⟩
      cases heq
      exact ⟨⟨ExtTreeSet.mem_toList.1 hc, by simpa using hfull⟩, rfl⟩
    · rintro ⟨⟨hc, hfull⟩, rfl⟩
      exact ⟨⟨cell, ExtTreeSet.mem_toList.2 hc, rfl⟩, by simpa using hfull⟩
  split
  · rename_i h
    have hin := mem_mapOfList.2 (List.mem_map.2 ⟨_, (hentry _).2 ⟨h, rfl⟩, rfl⟩)
    obtain ⟨stamps, hget⟩ :=
      Option.isSome_iff_exists.1 (ExtTreeMap.mem_iff_isSome_getElem?.1 hin)
    rw [hget, ((hentry stamps).1 (mem_of_getElem?_mapOfList hget)).2]
  · rename_i h
    refine Option.eq_none_iff_forall_ne_some.2 fun stamps hget => h ?_
    exact ((hentry stamps).1 (mem_of_getElem?_mapOfList hget)).1

section Stored

variable {cells : ExtTreeMap Cell Timestamp} {x : Value}

/-- The latest visible version of a table is stored in it. -/
theorem stored_of_latestBefore {tbl : Table} (htbl : s.tables[table]? = some tbl)
    (hx : tbl.data.latestBefore cell t = some x) :
    x.timestamp < t ∧ s.version? table cell x.timestamp = some x.contents := by
  obtain ⟨⟨hversion, hlt⟩, -⟩ := Memtable.latestBefore_eq_some_iff.1 hx
  refine ⟨hlt, ?_⟩
  unfold version?
  rw [htbl]
  exact hversion

/-- **A read of rows** returns stored versions of the cells asked for. -/
theorem stored_of_getRows {rows : List Bytes} {columns : ColumnFilter} {a : ExtTreeMap Cell Value}
    (hok : (run (.getRows table rows columns t) s).1 = .ok a) (hx : a[cell]? = some x) :
    (cell.row ∈ rows ∧ columns.keeps cell.column = true) ∧ x.timestamp < t ∧
      s.version? table cell x.timestamp = some x.contents := by
  obtain ⟨tbl, htbl, rfl⟩ := of_query hok
  rw [getElem?_getRows] at hx
  split at hx
  · rename_i hasked
    exact ⟨hasked, stored_of_latestBefore htbl hx⟩
  · cases hx

/-- **A read of cells** returns stored versions of the cells asked for. -/
theorem stored_of_get {a : ExtTreeMap Cell Value} (hok : (run (.get table cells) s).1 = .ok a)
    (hx : a[cell]? = some x) : ∃ t, cells[cell]? = some t ∧ x.timestamp < t ∧
      s.version? table cell x.timestamp = some x.contents := by
  obtain ⟨tbl, htbl, rfl⟩ := of_query hok
  rw [getElem?_get] at hx
  obtain ⟨t, hget, hlatest⟩ := Option.bind_eq_some_iff.1 hx
  exact ⟨t, hget, stored_of_latestBefore htbl hlatest⟩

/-- **A read of latest timestamps** returns those of stored versions of the cells asked for. -/
theorem stored_of_getLatestTimestamps {a : ExtTreeMap Cell Timestamp}
    (hok : (run (.getLatestTimestamps table cells) s).1 = .ok a) (hts : a[cell]? = some ts) :
    ∃ t, cells[cell]? = some t ∧ ts < t ∧ s.Holds table cell ts := by
  obtain ⟨tbl, htbl, rfl⟩ := of_query hok
  rw [ExtTreeMap.getElem?_map, getElem?_get] at hts
  obtain ⟨x, hx, rfl⟩ := Option.map_eq_some_iff.1 hts
  obtain ⟨t, hget, hlatest⟩ := Option.bind_eq_some_iff.1 hx
  obtain ⟨hlt, hversion⟩ := stored_of_latestBefore htbl hlatest
  refine ⟨t, hget, hlt, ?_⟩
  unfold Holds
  rw [hversion]
  rfl

/-- **A read of all timestamps** returns those of the stored versions of the cells asked for. -/
theorem mem_getAllTimestamps_iff {cells : ExtTreeSet Cell}
    {a : ExtTreeMap Cell (ExtTreeSet Timestamp)}
    (hok : (run (.getAllTimestamps table cells t) s).1 = .ok a) :
    (∃ stamps, a[cell]? = some stamps ∧ ts ∈ stamps) ↔
      cell ∈ cells ∧ ts < t ∧ s.Holds table cell ts := by
  obtain ⟨tbl, htbl, rfl⟩ := of_query hok
  have hstored : ts ∈ tbl.data.timestampsBefore cell t ↔ ts < t ∧ s.Holds table cell ts := by
    rw [Memtable.mem_timestampsBefore_iff, holds_iff, htbl]
    simp [and_comm]
  rw [getElem?_getAllTimestamps, ← hstored]
  constructor
  · rintro ⟨stamps, hstamps, hts⟩
    split at hstamps
    · rename_i hasked
      obtain rfl := Option.some.inj hstamps
      exact ⟨hasked.1, hts⟩
    · cases hstamps
  · rintro ⟨hcell, hts⟩
    refine ⟨_, if_pos ⟨hcell, Bool.eq_false_iff.2 fun hempty => ?_⟩, hts⟩
    rw [ExtTreeSet.isEmpty_iff.1 hempty] at hts
    exact ExtTreeSet.not_mem_empty hts

/-- A read of all timestamps leaves out the cells that have none. -/
theorem nonempty_of_getAllTimestamps {cells : ExtTreeSet Cell}
    {a : ExtTreeMap Cell (ExtTreeSet Timestamp)} {stamps : ExtTreeSet Timestamp}
    (hok : (run (.getAllTimestamps table cells t) s).1 = .ok a) (h : a[cell]? = some stamps) :
    ∃ ts, ts ∈ stamps := by
  obtain ⟨tbl, -, rfl⟩ := of_query hok
  rw [getElem?_getAllTimestamps] at h
  split at h
  · rename_i hasked
    obtain rfl := Option.some.inj h
    by_contra hnone
    push Not at hnone
    rw [ExtTreeSet.isEmpty_iff.2 (ExtTreeSet.eq_empty_iff_forall_not_mem.2 hnone)] at hasked
    exact absurd hasked.2 (by decide)
  · cases h

end Stored

end Store

end QuorumStore
