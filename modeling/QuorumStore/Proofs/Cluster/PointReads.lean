import QuorumStore.Proofs.Cluster.RangeScan
import QuorumStore.Proofs.Merge
import QuorumStore.Proofs.Store.Reads

/-!
# Range reads agree with point reads

Replicas may disagree about a row. A range read of the latest values and point reads of its rows
still come to the same, for both keep the greatest value of every cell.

* `Row.toList_eq_cells`: a map with what a row has is the map of its cells.
* `Store.payload?_latest`: what a range read gives for a cell is its latest visible version.
* `Ring.foldl_latestValues`: the answers of the replicas of a row, folded into one.
* `Run.readRange_pointReads`: **a drained range read has exactly the rows, and for each row exactly
  the columns, that point reads of its replicas find.**
-/

namespace QuorumStore

open Std Std.Do

/-- A map that has for each cell what a row has for its column is the map of its cells. -/
theorem Row.toList_eq_cells {τ : Type} {row : Row τ} {m : ExtTreeMap Cell τ}
    (h : ∀ cell : Cell, m[cell]? = if cell.row = row.key then row.get? cell.column else none) :
    m.toList = row.cells := by
  have hmap : m.toList.Pairwise fun a b => compare a.1 b.1 = .lt := ExtTreeMap.ordered_keys_toList
  have hcolumns : row.columns.toList.Pairwise fun a b => compare a.1 b.1 = .lt :=
    ExtTreeMap.ordered_keys_toList
  have hrow : row.cells.Pairwise fun a b => compare a.1 b.1 = .lt := by
    unfold cells
    rw [List.pairwise_map]
    refine hcolumns.imp fun {a b} hab => ?_
    rw [Cell.compare_def, compare_self, Ordering.eq_then]
    exact hab
  have hne : ∀ a b : Cell × τ, compare a.1 b.1 = .lt → a ≠ b := by
    rintro a b hab rfl
    rw [compare_self] at hab
    cases hab
  -- both lists are in the order of cells, so they are equal if they have the same members
  refine List.Perm.eq_of_pairwise (fun a b _ _ hab hba => ?_) hmap hrow ?_
  · rw [OrientedCmp.gt_of_lt hab] at hba
    cases hba
  refine (List.perm_ext_iff_of_nodup (hmap.imp fun {a b} => hne a b)
    (hrow.imp fun {a b} => hne a b)).2 ?_
  rintro ⟨cell, payload⟩
  unfold cells
  rw [ExtTreeMap.mem_toList_iff_getElem?_eq_some, h, List.mem_map]
  simp only [Prod.exists, ExtTreeMap.mem_toList_iff_getElem?_eq_some]
  constructor
  · intro hpayload
    split at hpayload
    · rename_i hkey
      refine ⟨cell.column, payload, hpayload, ?_⟩
      rw [← hkey]
    · cases hpayload
  · rintro ⟨column, payload', hget, heq⟩
    cases heq
    rw [if_pos rfl]
    exact hget

variable {r : Ring} {stores : ReplicaId → Store} {table : TableName} {range : RowRange}
  {t : Timestamp}

/-- What a range read of the latest values gives for a cell is its latest visible version. -/
theorem Store.payload?_latest (s : Store) (key column : Bytes) :
    s.payload? ⟨.latest, table, t⟩ range key column =
      if range.contains key = true ∧ range.columns.keeps column = true then
        s.latest? table ⟨key, column⟩ t
      else none := by
  unfold Store.payload? Store.latest? Memtable.payload?
  cases s.tables[table]? with
  | none => simp
  | some tbl => rfl

/-- A row of the table has an answer from each of its replicas. -/
theorem Ring.exists_answers (htable : ∀ id ∈ r.replicas, table ∈ (stores id).tables) (key : Bytes)
    (columns : ColumnFilter) (t : Timestamp) :
    ∃ answers : List (ExtTreeMap Cell Value),
      List.Forall₂ (fun id answer =>
        ((stores id).run (.getRows table [key] columns t)).1 = .ok answer)
        (r.replicasOf key) answers := by
  have hall : ∀ id ∈ r.replicasOf key, ∃ answer : ExtTreeMap Cell Value,
      ((stores id).run (.getRows table [key] columns t)).1 = .ok answer := by
    intro id hid
    have hin := htable id (Ring.mem_replicas_of_mem_replicasOf hid)
    obtain ⟨tbl, htbl⟩ := Option.isSome_iff_exists.1 (ExtTreeMap.mem_iff_isSome_getElem?.1 hin)
    refine ⟨Store.latestOf tbl ((Store.cellsOfRows tbl [key] columns).map (·, t)), ?_⟩
    show (stores id).query table _ = _
    unfold Store.query
    rw [htbl]
  generalize r.replicasOf key = ids at hall
  induction ids with
  | nil => exact ⟨[], .nil⟩
  | cons id ids ih =>
    obtain ⟨answer, hanswer⟩ := hall id List.mem_cons_self
    obtain ⟨answers, hanswers⟩ := ih fun other hother => hall other (List.mem_cons_of_mem _ hother)
    exact ⟨answer :: answers, .cons hanswer hanswers⟩

/-- What a replica answers for a row has the latest visible version of each selected cell. -/
theorem Store.getElem?_of_getRows {s : Store} {key : Bytes} {columns : ColumnFilter}
    {answer : ExtTreeMap Cell Value}
    (h : (s.run (.getRows table [key] columns t)).1 = .ok answer) (cell : Cell) :
    answer[cell]? =
      if cell.row = key ∧ columns.keeps cell.column = true then s.latest? table cell t
      else none := by
  obtain ⟨tbl, htbl, rfl⟩ := Store.of_query h
  rw [Store.getElem?_getRows]
  unfold Store.latest?
  rw [htbl]
  simp only [List.mem_singleton, Option.bind_some]

/-- **The answers of the replicas of a row**, folded into one, have what the range read gives for
the columns of the row. -/
theorem Ring.foldl_latestValues {key : Bytes} {answers : List (ExtTreeMap Cell Value)}
    (hin : range.contains key = true)
    (h : List.Forall₂ (fun id answer =>
      ((stores id).run (.getRows table [key] range.columns t)).1 = .ok answer)
      (r.replicasOf key) answers) (cell : Cell) :
    (answers.foldl Merge.latestValues ∅)[cell]? =
      if cell.row = key then r.payload? stores ⟨.latest, table, t⟩ range key cell.column
      else none := by
  refine (Merge.getElem?_foldl_joinWith Value.newer answers ∅ cell).trans ?_
  rw [ExtTreeMap.getElem?_empty]
  unfold Ring.payload? joinAt
  rw [List.foldl_map]
  generalize r.replicasOf key = ids at h
  by_cases hrow : cell.row = key
  · rw [if_pos hrow]
    generalize (none : Option Value) = acc
    induction h generalizing acc with
    | nil => rfl
    | @cons id answer ids answers hanswer _ ih =>
      have hcell : cell = ⟨key, cell.column⟩ := by
        rw [← hrow]
      have hpayload : answer[cell]? =
          (stores id).payload? ⟨.latest, table, t⟩ range key cell.column := by
        rw [Store.getElem?_of_getRows hanswer, Store.payload?_latest, ← hcell]
        simp only [hrow, hin, true_and]
      rw [List.foldl_cons, List.foldl_cons, hpayload]
      exact ih _
  · rw [if_neg hrow]
    -- no replica answers for a cell of another row
    induction h with
    | nil => rfl
    | @cons id answer ids answers hanswer _ ih =>
      have hnone : answer[cell]? = none := by
        rw [Store.getElem?_of_getRows hanswer, if_neg fun hc => hrow hc.1]
      rw [List.foldl_cons, hnone]
      exact ih

/-- The join of the replicas of a row has something exactly if one of them does. -/
theorem Ring.isSome_payload?_iff {key column : Bytes} :
    (r.payload? stores ⟨.latest, table, t⟩ range key column).isSome = true ↔
      range.contains key = true ∧ range.columns.keeps column = true ∧
        ∃ id ∈ r.replicasOf key, ∃ ts, ts < t ∧ (stores id).Holds table ⟨key, column⟩ ts := by
  unfold Ring.payload? joinAt
  rw [List.foldl_map, isSome_foldl_merge]
  simp only [Option.isSome_none, Bool.false_eq_true, false_or, Store.payload?_latest]
  constructor
  · rintro ⟨id, hid, hsome⟩
    split at hsome
    · rename_i hselected
      exact ⟨hselected.1, hselected.2, id, hid, Store.isSome_latest?_iff.1 hsome⟩
    · cases hsome
  · rintro ⟨hin, hkeep, id, hid, hholds⟩
    refine ⟨id, hid, ?_⟩
    rw [if_pos ⟨hin, hkeep⟩]
    exact Store.isSome_latest?_iff.2 hholds

/-- **Range reads agree with point reads**, whatever the replicas hold. A drained range read has, in
ascending order, the rows of the range of which some replica shows a selected column, and each with
exactly the cells that the answers of all its replicas to a point read of the row come to. -/
theorem Run.readRange_pointReads {k : Coordinator} {c : Cluster}
    (hk : k.placement = r.placement) (hcalm : c.Calm k r.replicas stores)
    (htable : ∀ id ∈ r.replicas, table ∈ (stores id).tables) (range : RowRange) (t : Timestamp) :
    ∃ rows : List (Row Value),
      rows.Pairwise (fun a b => a.key < b.key) ∧
      (∀ key, key ∈ rows.map Row.key ↔ range.contains key = true ∧
        ∃ id ∈ r.replicasOf key, ∃ column, range.columns.keeps column = true ∧
          ∃ ts, ts < t ∧ (stores id).Holds table ⟨key, column⟩ ts) ∧
      (∀ row ∈ rows, ∃ answers,
        List.Forall₂ (fun id answer =>
          ((stores id).run (.getRows table [row.key] range.columns t)).1 = .ok answer)
          (r.replicasOf row.key) answers ∧
        (answers.foldl Merge.latestValues ∅).toList = row.cells) ∧
      ∀ limit, rows.length < limit → ∃ c',
        (coordinatorService.readRange limit .latest table range t).run.run c = (.ok (.ok rows), c') ∧
        c'.Calm k r.replicas stores := by
  obtain ⟨rows, hrows, hread⟩ := Run.readRange_calm hk .latest table t
  refine ⟨rows, hrows.ascending, fun key => ?_, fun row hrow => ?_, fun limit hlimit => ?_⟩
  · rw [hrows.keys]
    simp only [Ring.isSome_payload?_iff]
    constructor
    · rintro ⟨column, hin, hkeep, id, hid, hholds⟩
      exact ⟨hin, id, hid, column, hkeep, hholds⟩
    · rintro ⟨hin, id, hid, column, hkeep, hholds⟩
      exact ⟨column, hin, hkeep, id, hid, hholds⟩
  · obtain ⟨column, hsome⟩ := (hrows.keys row.key).1 (List.mem_map_of_mem hrow)
    have hin := (Ring.isSome_payload?_iff.1 hsome).1
    obtain ⟨answers, hanswers⟩ := Ring.exists_answers htable row.key range.columns t
    refine ⟨answers, hanswers, Row.toList_eq_cells fun cell => ?_⟩
    rw [Ring.foldl_latestValues hin hanswers, hrows.columns row hrow]
  · obtain ⟨result, c', hrun, rfl, hcalm'⟩ := run_of_triple (hread limit hlimit) hcalm
    exact ⟨c', hrun, hcalm'⟩

section Pair

/-- A coordinator on the ring of three tokens. -/
def pairCoordinator : Coordinator where
  factors :=
    { replication := 2, read := 1, write := 1
      read_pos := Nat.one_pos, read_le := Nat.two_pos
      write_pos := Nat.one_pos, write_le := Nat.two_pos }
  placement := Ring.threeTokens.placement

/-- Two replicas that hold different values of one cell. -/
def pairStores (id : ReplicaId) : Store :=
  let version : Memtable :=
    if id = "a" then ({} : Memtable).put ⟨[80], [1]⟩ 3 [7] else ({} : Memtable).put ⟨[80], [1]⟩ 5 [9]
  { tables := (∅ : ExtTreeMap TableName Table).insert "t" { maxValueSize := 10, data := version } }

/-- The two replicas behind their coordinator. -/
def pair : Cluster where
  replicas := ((∅ : ExtTreeMap ReplicaId Replica).insert "a" { store := pairStores "a" }).insert "b"
    { store := pairStores "b" }
  coordinator := some pairCoordinator

theorem calm_pair : pair.Calm pairCoordinator Ring.threeTokens.replicas pairStores := by
  have hids : ∀ id ∈ Ring.threeTokens.replicas, id = "a" ∨ id = "b" := by decide
  refine ⟨rfl, rfl, rfl, fun id hid => ?_⟩
  rcases hids id hid with rfl | rfl
  · exact ⟨{ store := pairStores "a" }, by decide, ⟨rfl, rfl, rfl, rfl⟩, rfl⟩
  · exact ⟨{ store := pairStores "b" }, by decide, ⟨rfl, rfl, rfl, rfl⟩, rfl⟩

/-- A read of all rows has the row on which the two replicas differ. -/
theorem readRange_pair : ∃ rows : List (Row Value), [80] ∈ rows.map Row.key ∧
    ∀ limit, rows.length < limit → ∃ c',
      (coordinatorService.readRange limit .latest "t" .all 9).run.run pair = (.ok (.ok rows), c') := by
  have htable : ∀ id ∈ Ring.threeTokens.replicas, "t" ∈ (pairStores id).tables := by decide
  obtain ⟨rows, -, hkeys, -, hread⟩ := Run.readRange_pointReads rfl calm_pair htable .all 9
  refine ⟨rows, ?_, fun limit hlimit => ?_⟩
  · exact (hkeys [80]).2 ⟨rfl, "b", by decide, [1], rfl, 5, by decide, rfl⟩
  · obtain ⟨c', hrun, -⟩ := hread limit hlimit
    exact ⟨c', hrun⟩

end Pair

end QuorumStore
