import QuorumStore.Proofs.Cluster.RangeScan
import QuorumStore.Proofs.Scan.FirstPages

/-!
# Paging on stores and clusters

A store that is not written to and the coordinator of a calm cluster give every range read the rows
of the range in order, so their tables can be paged through by tokens.

* `Tabulates.rowsIn`: the rows of a range, of the rows of a whole table.
* `bareService_unchanging`: range reads of a store.
* `coordinatorService_unchanging`: range reads through the coordinator of a calm cluster.
* `Service.paging_exact`: **first pages are what they should be if there is room for them, and going on
  from token to token ends and gives every row of the range once, in order.**
* `paging_noRoom`: a page of no rows for which there is no room.
-/

namespace QuorumStore

open Std Std.Do

/-- **The rows of a range** among those of a table tabulate what the table has in the range. -/
theorem Tabulates.rowsIn {f : Bytes → Bytes → Option Value} {rows : List (Row Value)}
    (h : Tabulates f rows) (range : RowRange) :
    Tabulates (within range f) (rowsIn rows range) := by
  refine ⟨h.ascending.filter _, fun key => ?_, fun row hrow column => ?_⟩
  · unfold QuorumStore.rowsIn within
    simp only [List.mem_map, List.mem_filter]
    constructor
    · rintro ⟨row, ⟨hrow, hin⟩, rfl⟩
      obtain ⟨column, hsome⟩ := (h.keys row.key).1 (List.mem_map_of_mem hrow)
      exact ⟨column, by rw [if_pos hin]; exact hsome⟩
    · rintro ⟨column, hsome⟩
      split at hsome
      · rename_i hin
        obtain ⟨row, hrow, rfl⟩ := List.mem_map.1 ((h.keys key).2 ⟨column, hsome⟩)
        exact ⟨row, ⟨hrow, hin⟩, rfl⟩
      · cases hsome
  · obtain ⟨hmem, hin⟩ := List.mem_filter.1 hrow
    unfold within
    rw [if_pos hin]
    exact h.columns row hmem column

section Stores

variable {id : ReplicaId} {table : TableName} {t : Timestamp}

theorem Memtable.payload?_within (m : Memtable) (range : RowRange) (t : Timestamp)
    (key column : Bytes) :
    m.payload? range t .latest key column =
      within range (m.payload? { columns := range.columns } t .latest) key column := by
  have hall : ({ columns := range.columns } : RowRange).contains key = true := by
    simp [RowRange.contains_iff]
  unfold within Memtable.payload?
  by_cases hin : range.contains key = true
  · simp only [hin, hall, if_true, true_and]
  · simp only [hin, false_and, if_false, Bool.false_eq_true]

/-- A range read of a table finds the rows of the range among those of the table. -/
theorem Memtable.scan_eq_rowsIn (m : Memtable) (range : RowRange) (t : Timestamp) :
    m.scan range t .latest = rowsIn (m.scan { columns := range.columns } t .latest) range := by
  have hwhole := m.scan_tabulates { columns := range.columns } t .latest
  refine (m.scan_tabulates range t .latest).unique ((hwhole.rowsIn range).congr fun key column => ?_)
  exact (m.payload?_within range t key column).symm

/-- The rows of one replica are yielded one by one. -/
theorem RowCursor.yields_feed {I : Assertion (.except Halt (.arg Cluster .pure))}
    (items : List (Row Value)) :
    Cursor.Yields Run (fun _ => I) items (RowCursor.feed { items }) := by
  induction items with
  | nil => exact Hoare.pure rfl .rfl
  | cons row items ih => exact Hoare.pure ⟨rfl, ih⟩ .rfl

/-- A replica whose store has a table with the given versions. -/
def Cluster.HasTable (id : ReplicaId) (table : TableName) (tbl : Table) (c : Cluster) : Prop :=
  ∃ r, c.replicas[id]? = some r ∧ r.store.tables[table]? = some tbl

/-- **A store that is not written to** gives every range read the rows of the range. -/
theorem bareService_unchanging (id : ReplicaId) (table : TableName) (t : Timestamp) (tbl : Table) :
    Unchanging (fun range => (bareService id).openRange .latest table range t)
      (fun columns => tbl.data.scan { columns } t .latest)
      (fun c : Cluster => ⌜c.HasTable id table tbl⌝)
      (fun _ => fun c : Cluster => ⌜c.HasTable id table tbl⌝) := by
  refine Unchanging.of_idle (fun columns => (tbl.data.scan_tabulates _ t .latest).ascending)
    (fun range => ?_) RowCursor.close_keeps
  refine Run.triple_of_run fun c hc => ?_
  obtain ⟨r, hr, htable⟩ := hc
  have hopen : ((bareService id).openRange .latest table range t).run.run c =
      (.ok (.ok (.feed { items := tbl.data.scan range t .latest })), c) := by
    show (Run.openStore id ⟨.latest, table, t⟩ range).run.run c = _
    unfold Run.openStore
    rw [Run.run_bind_ok (Run.run_get c), hr]
    unfold Store.scan Store.query
    dsimp only
    rw [htable]
    rfl
  refine ⟨_, c, hopen, ⟨_, rfl, ?_⟩, r, hr, htable⟩
  rw [← tbl.data.scan_eq_rowsIn]
  exact RowCursor.yields_feed _

end Stores

section Coordinators

variable {k : Coordinator} {r : Ring} {stores : ReplicaId → Store} {ids : List ReplicaId}

theorem Ring.payload?_within (read : RangeRead Value) (range : RowRange) (key column : Bytes) :
    r.payload? stores read range key column =
      within range (r.payload? stores read { columns := range.columns }) key column := by
  have hall : ({ columns := range.columns } : RowRange).contains key = true := by
    simp [RowRange.contains_iff]
  unfold within
  split
  · rename_i hin
    unfold Ring.payload? joinAt
    rw [List.foldl_map, List.foldl_map]
    simp only [Store.payload?_congr hin hall rfl]
  · rename_i hout
    refine joinAt_eq_none fun f hf => ?_
    obtain ⟨id, -, rfl⟩ := List.mem_map.1 hf
    exact Store.payload?_of_not_contains hout column

/-- **The coordinator of a calm cluster** gives every range read the rows of the range. They are the
join of what the replicas of each row have. -/
theorem coordinatorService_unchanging (hk : k.placement = r.placement)
    (hids : ∀ id ∈ r.replicas, id ∈ ids) (table : TableName) (t : Timestamp) : ∃ rows,
    (∀ columns, Tabulates (r.payload? stores ⟨.latest, table, t⟩ { columns }) (rows columns)) ∧
    Unchanging (fun range => coordinatorService.openRange .latest table range t) rows
      (fun c : Cluster => ⌜c.Calm k ids stores⌝)
      (fun _ => fun c : Cluster => ⌜c.Calm k ids stores⌝) := by
  have hscan := @Run.scan_yields Value k r stores ids hids ⟨.latest, table, t⟩
  choose rows hrows hyields using hscan
  refine ⟨fun columns => rows { columns }, fun columns => hrows _, ?_⟩
  refine Unchanging.of_idle (fun columns => (hrows _).ascending) (fun range => ?_)
    RowCursor.close_keeps
  refine Run.triple_of_run fun c hc => ?_
  refine ⟨_, _, Run.run_openRange hc.coordinator .latest table range t, ⟨_, rfl, ?_⟩,
    hc.frame rfl rfl rfl rfl⟩
  have hin : rows range = rowsIn (rows { columns := range.columns }) range := by
    refine (hrows range).unique (((hrows _).rowsIn range).congr fun key column => ?_)
    exact (Ring.payload?_within _ range key column).symm
  rw [← hin, hk]
  exact hyields range

end Coordinators

section Services

variable {m : Type → Type} [Monad m] {ps : PostShape.{0}} [WPMonad m ps] {κ : Type → Type}
  [Cursor m (κ Value) (Row Value)] {s : Service m κ} {table : TableName} {t : Timestamp}
  {rows : ColumnFilter → List (Row Value)} {idle : Assertion ps} {reading : κ Value → Assertion ps}

/-- **Paging by tokens enumerates a range**, unless its pages have no room. Of a table that does not
change and whose range reads yield the rows of the range in strictly ascending order, the first pages
of some ranges are, for each of these ranges, its first rows: as many as its batch hint says, but at
least one, and 100 without a hint. A page has a token exactly if there are more. Where there is no room
for the page of one of the ranges, none is given, whatever rows there are. Asking again for the same
range from the token on, until there is none, ends, and gives every row of the range once, in order. -/
theorem Service.paging_exact
    (h : Unchanging (fun range => s.openRange .latest table range t) rows idle reading) :
    (∀ ranges, (∀ range ∈ ranges, range.pageSize ≤ maxPageSize) →
      ⦃idle⦄ (s.firstPages table t [] ranges)
      ⦃⇓ result => ⌜∃ pages, result = .ok pages ∧ PagesOf rows ranges pages⌝ ∧ idle⦄) ∧
    (∀ ranges, (∃ range ∈ ranges, maxPageSize < range.pageSize) →
      ⦃idle⦄ (s.firstPages table t [] ranges) ⦃⇓ result => ⌜result = .error .noRoom⌝⦄) ∧
    ∀ range asks, range.pageSize ≤ maxPageSize → (rowsIn (rows range.columns) range).length < asks →
      ⦃idle⦄ (s.pageThrough table t asks range)
      ⦃⇓ result => ⌜∃ pages, result = .ok pages ∧
        Enumerates pages (rowsIn (rows range.columns) range)⌝ ∧ idle⦄ := by
  refine ⟨fun ranges hroom => firstPages_spec h (PagesOf.nil rows) hroom, ?_,
    fun range asks hroom hasks => pageThrough_spec h hroom hasks⟩
  rintro ranges ⟨range, hrange, hlt⟩
  exact firstPages_noRoom h [] hrange hlt

end Services

section Padded

/-- Rows whose keys extend one another by zero bytes, and another row behind them. -/
def paddedTable : Table :=
  { maxValueSize := 4 : Table }.store
    [(⟨[1], [0]⟩, ⟨[7], 3⟩), (⟨[1, 0, 0], [0]⟩, ⟨[8], 3⟩), (⟨[1, 0], [0]⟩, ⟨[9], 4⟩),
      (⟨[2], []⟩, ⟨[6], 5⟩)]

/-- A cluster of one replica with these rows. -/
def paddedCluster : Cluster where
  replicas := ExtTreeMap.ofList
    [("r", { store := ⟨ExtTreeMap.ofList [("t", paddedTable)] compare⟩ })] compare

theorem paddedCluster_hasTable : paddedCluster.HasTable "r" "t" paddedTable := by
  refine ⟨{ store := ⟨ExtTreeMap.ofList [("t", paddedTable)] compare⟩ }, ?_, ?_⟩ <;>
    exact ExtTreeMap.getElem?_ofList_of_mem compare_self (by simp) (by simp)

/-- The keys of the first pages of the whole table, and of all pages of one row each. -/
theorem paging_padded :
    (∃ pages c', ((bareService "r").firstPages "t" 9 [] [.all, { batchHint := some 3 }]).run.run
        paddedCluster = (.ok (.ok pages), c') ∧
      ∀ range page, (range, page) ∈ pages →
        page.results.map Row.key =
          [[1], [1, 0], [1, 0, 0], [2]].take (max (range.batchHint.getD 100).toNat 1)) ∧
    ∃ pages c', ((bareService "r").pageThrough "t" 9 5 { batchHint := some 0 }).run.run
        paddedCluster = (.ok (.ok pages), c') ∧
      (pages.flatMap Page.results).map Row.key = [[1], [1, 0], [1, 0, 0], [2]] := by
  have hkeys : ∀ hint, (rowsIn (paddedTable.data.scan {} 9 .latest) { batchHint := hint }).map
      Row.key = [[1], [1, 0], [1, 0, 0], [2]] := by
    intro hint
    show (rowsIn (paddedTable.data.scan {} 9 .latest) {}).map Row.key = _
    decide
  obtain ⟨hfirst, -, hthrough⟩ :=
    Service.paging_exact (bareService_unchanging "r" "t" 9 paddedTable)
  constructor
  · obtain ⟨_, c', hrun, ⟨pages, rfl, hpages⟩, -⟩ :=
      Run.run_of_triple (hfirst [.all, { batchHint := some 3 }] (by decide)) paddedCluster_hasTable
    refine ⟨pages, c', hrun, fun range page hmem => ?_⟩
    have hasked := (hpages.mem_iff range).1 (List.mem_map_of_mem hmem)
    have hresults := (hpages.isFirstPage range page hmem).results
    rw [hresults, List.map_take]
    congr 1
    rcases List.mem_cons.1 hasked with rfl | hasked
    · exact hkeys none
    · cases List.mem_singleton.1 hasked
      exact hkeys (some 3)
  · have hfuel :
        (rowsIn (paddedTable.data.scan {} 9 .latest) { batchHint := some 0 }).length < 5 := by decide
    obtain ⟨_, c', hrun, ⟨pages, rfl, hpages⟩, -⟩ :=
      Run.run_of_triple (hthrough { batchHint := some 0 } 5 (by decide) hfuel) paddedCluster_hasTable
    refine ⟨pages, c', hrun, ?_⟩
    rw [hpages.results]
    exact hkeys (some 0)

end Padded

section Vacant

/-- A cluster of one replica with a table without rows. -/
def vacantCluster : Cluster where
  replicas := ExtTreeMap.ofList
    [("r", { store := ⟨ExtTreeMap.ofList [("t", { maxValueSize := 4 })] compare⟩ })] compare

theorem vacantCluster_hasTable : vacantCluster.HasTable "r" "t" { maxValueSize := 4 } := by
  refine ⟨{ store := ⟨ExtTreeMap.ofList [("t", { maxValueSize := 4 })] compare⟩ }, ?_, ?_⟩ <;>
    exact ExtTreeMap.getElem?_ofList_of_mem compare_self (by simp) (by simp)

/-- The first page of a table without rows is not given if its batch hint is too large. -/
theorem paging_noRoom : ∃ c',
    ((bareService "r").firstPages "t" 6 [] [{ batchHint := some 9223372036854775807 }]).run.run
      vacantCluster = (.ok (.error .noRoom), c') := by
  have hpage := Service.firstPages_noRoom
    (bareService_unchanging "r" "t" 6 { maxValueSize := 4 }) []
    (List.mem_singleton_self { batchHint := some 9223372036854775807 }) (by decide)
  obtain ⟨_, c', hrun, rfl⟩ := Run.triple_iff.1 hpage vacantCluster vacantCluster_hasTable
  exact ⟨c', hrun⟩

end Vacant

end QuorumStore
