import QuorumStore.Proofs.Scan.Table

/-!
# Tables refine flat maps

A table keeps its versions on two levels: the cells in order, and under each cell its versions in
order. Whatever is written and removed, it cannot be told from one flat map whose keys are pairs of
a cell and a timestamp.

* `Memtable.represents_apply`: every change of a table is the same change of the flat map.
* `Memtable.size_eq`, `Memtable.totalVersions_eq`: how many cells and versions the map has.
* `Memtable.isSome_payload?_iff`, `Memtable.payload?_shows`: what range reads give, said of the map.
* `Memtable.refines_flat`: **after any changes every read of a table is the read of the flat map.**
-/

namespace QuorumStore

open Std

/-- A change of a table. -/
inductive TableChange where
  | put (cell : Cell) (ts : Timestamp) (contents : Bytes)
  | remove (cell : Cell) (ts : Timestamp)
  | clear

/-- A flat map from cells and timestamps to contents. -/
abbrev FlatTable := ExtTreeMap (Cell × Timestamp) Bytes

namespace FlatTable

def apply (f : FlatTable) : TableChange → FlatTable
  | .put cell ts contents => f.insert (cell, ts) contents
  | .remove cell ts => f.erase (cell, ts)
  | .clear => ∅

/-- A read of a cell at `t` may see the version with this timestamp. -/
def Visible (f : FlatTable) (cell : Cell) (t ts : Timestamp) : Prop := (cell, ts) ∈ f ∧ ts < t

/-- The version with the greatest timestamp before `t`, or none where there is no version. -/
def Latest (f : FlatTable) (cell : Cell) (t : Timestamp) : Option Value → Prop
  | none => ∀ ts, ¬ f.Visible cell t ts
  | some v => (f[(cell, v.timestamp)]? = some v.contents ∧ v.timestamp < t) ∧
      ∀ ts, f.Visible cell t ts → ts ≤ v.timestamp

/-- What a range read shows of a cell: the greatest visible version, all visible versions, or the
timestamps of all visible versions. -/
def Shows {τ : Type} (f : FlatTable) (cell : Cell) (t : Timestamp) : Projection τ → τ → Prop
  | .latest, v => f.Latest cell t (some v)
  | .history, versions =>
    ∀ v : Value, v ∈ versions ↔ f[(cell, v.timestamp)]? = some v.contents ∧ v.timestamp < t
  | .timestamps, stamps => ∀ ts : Timestamp, ts ∈ stamps ↔ f.Visible cell t ts

/-- The rows are what a range read has to find in the map. -/
structure Scanned {τ : Type} (f : FlatTable) (range : RowRange) (t : Timestamp)
    (projection : Projection τ) (rows : List (Row τ)) : Prop where
  ascending : rows.Pairwise fun a b => a.key < b.key
  nonempty : ∀ row ∈ rows, row.isEmpty = false
  present : ∀ key column,
    (∃ row ∈ rows, row.key = key ∧ (row.get? column).isSome = true) ↔
      range.contains key = true ∧ range.columns.keeps column = true ∧
        ∃ ts, f.Visible ⟨key, column⟩ t ts
  payload : ∀ row ∈ rows, ∀ column x, row.get? column = some x →
    f.Shows ⟨row.key, column⟩ t projection x

end FlatTable

namespace Versions

variable {vs : Versions} {t ts : Timestamp}

theorem before_ne_nil_iff : vs.before t ≠ [] ↔ ∃ ts, ts ∈ vs ∧ ts < t := by
  simp only [← mem_timestamps]
  unfold timestamps
  simp only [mem_setOfList, List.mem_map]
  constructor
  · intro hne
    obtain ⟨v, hv⟩ := List.exists_mem_of_ne_nil _ hne
    exact ⟨v.timestamp, v, hv, rfl⟩
  · rintro ⟨ts, v, hv, -⟩
    exact List.ne_nil_of_mem hv

end Versions

namespace Projection

theorem isSome_nonempty_ofList {α : Type} [Ord α] [TransOrd α] [LawfulEqOrd α] {l : List α} :
    (nonempty (ExtTreeSet.ofList l compare)).isSome = true ↔ l ≠ [] := by
  unfold nonempty
  cases l with
  | nil => simp
  | cons a l =>
    have hmem : a ∈ ExtTreeSet.ofList (a :: l) compare := mem_setOfList.2 List.mem_cons_self
    have hne : ¬ (ExtTreeSet.ofList (a :: l) compare).isEmpty = true := by
      rw [ExtTreeSet.isEmpty_iff]
      intro hempty
      rw [hempty] at hmem
      exact ExtTreeSet.not_mem_empty hmem
    rw [if_neg hne]
    simp

/-- A range read gives something for the versions of a cell exactly if one is visible. -/
theorem isSome_project_iff {τ : Type} (projection : Projection τ) {vs : Versions} {t : Timestamp} :
    (projection.project vs t).isSome = true ↔ ∃ ts, ts ∈ vs ∧ ts < t := by
  rw [← Versions.before_ne_nil_iff]
  cases projection with
  | latest =>
    unfold project Versions.latest
    simp [List.getLast?_isSome]
  | history => exact isSome_nonempty_ofList
  | timestamps =>
    refine isSome_nonempty_ofList.trans ?_
    simp

end Projection

namespace Memtable

def apply (m : Memtable) : TableChange → Memtable
  | .put cell ts contents => m.put cell ts contents
  | .remove cell ts => (m.removeVersion cell ts).2
  | .clear => m.clear

/-- No cell is stored without a version. -/
def Trimmed (m : Memtable) : Prop :=
  ∀ (cell : Cell) (vs : Versions), m.cells[cell]? = some vs → vs ≠ ∅

/-- A table has the versions of a flat map, and no cell without a version. -/
structure Represents (m : Memtable) (f : FlatTable) : Prop where
  trimmed : m.Trimmed
  version : ∀ cell ts, m.version? cell ts = f[(cell, ts)]?

variable {m : Memtable} {f : FlatTable}

theorem Trimmed.put (h : m.Trimmed) (c : Cell) (ts : Timestamp) (contents : Bytes) :
    (m.put c ts contents).Trimmed := by
  intro cell vs hvs
  unfold Memtable.put at hvs
  rw [ExtTreeMap.getElem?_insert] at hvs
  split at hvs
  · intro hempty
    have hmem : ts ∈ (m.cells.getD c ∅).insert ts contents := by simp
    rw [Option.some.inj hvs, hempty] at hmem
    exact ExtTreeMap.not_mem_empty hmem
  · exact h cell vs hvs

theorem Trimmed.removeVersion (h : m.Trimmed) (c : Cell) (ts : Timestamp) :
    (m.removeVersion c ts).2.Trimmed := by
  intro cell vs hvs
  unfold Memtable.removeVersion at hvs
  cases hc : m.cells[c]? with
  | none =>
    rw [hc] at hvs
    exact h cell vs hvs
  | some old =>
    rw [hc] at hvs
    dsimp only at hvs
    split at hvs
    · -- the cell was left without versions and is gone
      rw [ExtTreeMap.getElem?_erase] at hvs
      split at hvs
      · cases hvs
      · exact h cell vs hvs
    · rename_i hleft
      rw [ExtTreeMap.getElem?_insert] at hvs
      split at hvs
      · intro hempty
        rw [Option.some.inj hvs, hempty] at hleft
        simp at hleft
      · exact h cell vs hvs

/-- **Every change of a table is the same change of the flat map.** -/
theorem represents_apply (h : Represents m f) (change : TableChange) :
    Represents (m.apply change) (f.apply change) := by
  have hpair : ∀ (c cell : Cell) (ts' ts : Timestamp),
      compare (c, ts') (cell, ts) = .eq ↔ c = cell ∧ ts' = ts := by
    intro c cell ts' ts
    rw [LawfulEqOrd.compare_eq_iff_eq, Prod.mk.injEq]
  cases change with
  | put c ts' contents =>
    refine ⟨h.trimmed.put c ts' contents, ?_⟩
    intro cell ts
    have hold := h.version cell ts
    simp only [apply, FlatTable.apply]
    rw [version?_put, ExtTreeMap.getElem?_insert, hold]
    simp only [hpair]
  | remove c ts' =>
    refine ⟨h.trimmed.removeVersion c ts', ?_⟩
    intro cell ts
    have hold := h.version cell ts
    simp only [apply, FlatTable.apply]
    rw [version?_removeVersion, ExtTreeMap.getElem?_erase, hold]
    simp only [hpair]
  | clear =>
    refine ⟨?_, ?_⟩
    · intro cell vs hvs
      simp [apply, Memtable.clear] at hvs
    · intro cell ts
      simp only [apply, FlatTable.apply]
      rw [version?_clear, ExtTreeMap.getElem?_empty]

theorem represents_run (changes : List TableChange) :
    Represents (changes.foldl apply {}) (changes.foldl FlatTable.apply ∅) := by
  have key : ∀ (m : Memtable) (f : FlatTable), Represents m f →
      Represents (changes.foldl apply m) (changes.foldl FlatTable.apply f) := by
    induction changes with
    | nil => intro m f h; exact h
    | cons change changes ih =>
      intro m f h
      simp only [List.foldl_cons]
      exact ih _ _ (represents_apply h change)
  refine key {} ∅ ⟨?_, ?_⟩
  · intro cell vs hvs
    simp at hvs
  · intro cell ts
    simp [version?]

theorem Represents.mem_iff (h : Represents m f) {cell : Cell} {ts : Timestamp} :
    (m.version? cell ts).isSome = true ↔ (cell, ts) ∈ f := by
  rw [h.version cell ts, ExtTreeMap.mem_iff_isSome_getElem?]

theorem mem_cells_iff (h : Represents m f) {cell : Cell} : cell ∈ m.cells ↔ ∃ ts, (cell, ts) ∈ f := by
  constructor
  · intro hcell
    obtain ⟨vs, hvs⟩ := Option.isSome_iff_exists.1 (ExtTreeMap.mem_iff_isSome_getElem?.1 hcell)
    have hne := h.trimmed cell vs hvs
    rw [ne_eq, ExtTreeMap.eq_empty_iff_forall_not_mem] at hne
    push Not at hne
    obtain ⟨ts, hts⟩ := hne
    refine ⟨ts, h.mem_iff.1 ?_⟩
    unfold version?
    rw [hvs]
    exact ExtTreeMap.mem_iff_isSome_getElem?.1 hts
  · intro ⟨ts, hts⟩
    exact mem_cells_of_version? (h.mem_iff.2 hts)

/-- Lists without repetition have the same length if they have the same members. -/
theorem length_eq_of_mem_iff {α : Type} {l l' : List α} (hl : l.Nodup) (hl' : l'.Nodup)
    (hmem : ∀ a, a ∈ l ↔ a ∈ l') : l.length = l'.length :=
  ((List.perm_ext_iff_of_nodup hl hl').2 hmem).length_eq

theorem size_eq (h : Represents m f) :
    m.size = (ExtTreeSet.ofList (f.keys.map Prod.fst) compare).size := by
  unfold size
  rw [← ExtTreeMap.length_keys, ← ExtTreeSet.length_toList]
  have hdistinct : (ExtTreeSet.ofList (f.keys.map Prod.fst) compare).toList.Nodup := by
    refine ExtTreeSet.distinct_toList.imp ?_
    intro a b hne heq
    rw [heq] at hne
    exact hne compare_self
  refine length_eq_of_mem_iff ExtTreeMap.nodup_keys hdistinct ?_
  intro cell
  rw [ExtTreeMap.mem_keys, mem_cells_iff h, ExtTreeSet.mem_toList, mem_setOfList]
  simp [ExtTreeMap.mem_keys]

/-- The keys of the flat map, cell by cell. -/
def versionKeys (m : Memtable) : List (Cell × Timestamp) :=
  m.cells.toList.flatMap fun (cell, vs) => vs.keys.map fun ts => (cell, ts)

theorem mem_versionKeys {cell : Cell} {ts : Timestamp} :
    (cell, ts) ∈ m.versionKeys ↔ (m.version? cell ts).isSome = true := by
  unfold versionKeys version?
  simp only [List.mem_flatMap, List.mem_map, Prod.exists, Prod.mk.injEq,
    ExtTreeMap.mem_toList_iff_getElem?_eq_some, ExtTreeMap.mem_keys]
  constructor
  · rintro ⟨c, vs, hvs, ts', hts, rfl, rfl⟩
    rw [hvs]
    exact ExtTreeMap.mem_iff_isSome_getElem?.1 hts
  · intro hsome
    cases hvs : m.cells[cell]? with
    | none => simp [hvs] at hsome
    | some vs =>
      rw [hvs] at hsome
      exact ⟨cell, vs, hvs, ts, ExtTreeMap.mem_iff_isSome_getElem?.2 hsome, rfl, rfl⟩

theorem nodup_versionKeys (m : Memtable) : m.versionKeys.Nodup := by
  have hcells : m.cells.toList.Pairwise fun a b => a.1 ≠ b.1 := by
    refine ExtTreeMap.ordered_keys_toList.imp ?_
    intro a b hab heq
    rw [heq, compare_self] at hab
    cases hab
  unfold versionKeys
  rw [List.nodup_flatMap]
  refine ⟨?_, ?_⟩
  · intro entry _
    refine List.Nodup.map ?_ ExtTreeMap.nodup_keys
    intro ts ts' heq
    exact (Prod.mk.inj heq).2
  · refine hcells.imp ?_
    intro a b hne
    simp only [Function.onFun, List.disjoint_left, List.mem_map]
    rintro _ ⟨ts, -, rfl⟩ ⟨ts', -, heq⟩
    exact hne (Prod.mk.inj heq).1.symm

theorem totalVersions_eq (h : Represents m f) : m.totalVersions = f.size := by
  have hlength : m.totalVersions = m.versionKeys.length := by
    unfold totalVersions versionKeys
    rw [ExtTreeMap.foldl_eq_foldl_toList, List.length_flatMap, ← List.foldl_map, ← List.sum_eq_foldl]
    simp [ExtTreeMap.length_keys]
  rw [hlength, ← ExtTreeMap.length_keys]
  refine length_eq_of_mem_iff (nodup_versionKeys m) ExtTreeMap.nodup_keys ?_
  rintro ⟨cell, ts⟩
  rw [mem_versionKeys, h.mem_iff, ExtTreeMap.mem_keys]

theorem isEmpty_eq (h : Represents m f) : m.isEmpty = f.isEmpty := by
  unfold isEmpty
  rw [Bool.eq_iff_iff, ExtTreeMap.isEmpty_iff, ExtTreeMap.isEmpty_iff,
    ExtTreeMap.eq_empty_iff_forall_not_mem, ExtTreeMap.eq_empty_iff_forall_not_mem]
  constructor
  · rintro hnone ⟨cell, ts⟩ hmem
    exact hnone cell ((mem_cells_iff h).2 ⟨ts, hmem⟩)
  · intro hnone cell hcell
    obtain ⟨ts, hmem⟩ := (mem_cells_iff h).1 hcell
    exact hnone (cell, ts) hmem

theorem removeVersion_fst (h : Represents m f) (cell : Cell) (ts : Timestamp) :
    (m.removeVersion cell ts).1 = f.contains (cell, ts) := by
  have hsome : (m.removeVersion cell ts).1 = (m.version? cell ts).isSome := by
    unfold removeVersion version?
    cases m.cells[cell]? with
    | none => rfl
    | some vs => exact ExtTreeMap.contains_eq_isSome_getElem?
  rw [hsome, h.version, ExtTreeMap.contains_eq_isSome_getElem?]

theorem latestBefore_latest (h : Represents m f) (cell : Cell) (t : Timestamp) :
    f.Latest cell t (m.latestBefore cell t) := by
  cases hv : m.latestBefore cell t with
  | none =>
    intro ts hts
    obtain ⟨v, hsome, -⟩ := exists_latestBefore (h.mem_iff.2 hts.1) hts.2
    rw [hv] at hsome
    cases hsome
  | some v =>
    obtain ⟨⟨hversion, hlt⟩, hgreatest⟩ := latestBefore_eq_some_iff.1 hv
    rw [h.version] at hversion
    refine ⟨⟨hversion, hlt⟩, ?_⟩
    intro ts hts
    exact hgreatest ts (h.mem_iff.2 hts.1) hts.2

theorem mem_timestampsBefore (h : Represents m f) {cell : Cell} {t ts : Timestamp} :
    ts ∈ m.timestampsBefore cell t ↔ f.Visible cell t ts := by
  unfold FlatTable.Visible
  rw [← h.mem_iff]
  exact mem_timestampsBefore_iff

theorem rowCells_pairwise (m : Memtable) (row : Bytes) (keep : Bytes → Bool) :
    (m.rowCells row keep).Pairwise fun a b => a.column < b.column := by
  have hcells : (m.rowCells row keep).Pairwise fun a b => compare a b = .lt := by
    have hall : (m.cells.toList.map Prod.fst).Pairwise fun a b => compare a b = .lt :=
      List.pairwise_map.2 ExtTreeMap.ordered_keys_toList
    refine hall.sublist ?_
    unfold rowCells cellsFrom
    refine List.filter_sublist.trans ((List.takeWhile_sublist _).trans ?_)
    exact (List.dropWhile_sublist _).map _
  refine hcells.imp_of_mem ?_
  intro a b ha hb hab
  have harow := (mem_rowCells_iff.1 ha).2.1
  have hbrow := (mem_rowCells_iff.1 hb).2.1
  rw [Cell.compare_def, harow, hbrow, compare_self, Ordering.eq_then] at hab
  exact (Bytes.compare_eq_lt_iff _ _).1 hab

theorem isSome_payload?_iff {τ : Type} (h : Represents m f) {range : RowRange} {t : Timestamp}
    {projection : Projection τ} {key column : Bytes} :
    (m.payload? range t projection key column).isSome = true ↔
      range.contains key = true ∧ range.columns.keeps column = true ∧
        ∃ ts, f.Visible ⟨key, column⟩ t ts := by
  have hvisible : (∃ ts, f.Visible ⟨key, column⟩ t ts) ↔
      (m.cells[(⟨key, column⟩ : Cell)]?.bind fun vs => projection.project vs t).isSome = true := by
    unfold FlatTable.Visible
    simp only [← h.mem_iff]
    unfold version?
    cases m.cells[(⟨key, column⟩ : Cell)]? with
    | none => simp
    | some vs => simp [projection.isSome_project_iff]
  rw [hvisible]
  unfold payload?
  split
  · rename_i hselected
    simp [hselected]
  · rename_i hselected
    simp only [Option.isSome_none, Bool.false_eq_true, false_iff]
    intro hall
    exact hselected ⟨hall.1, hall.2.1⟩

theorem payload?_shows {τ : Type} (h : Represents m f) {range : RowRange} {t : Timestamp}
    {projection : Projection τ} {key column : Bytes} {x : τ}
    (hx : m.payload? range t projection key column = some x) :
    f.Shows ⟨key, column⟩ t projection x := by
  unfold payload? at hx
  split at hx
  case isFalse => cases hx
  obtain ⟨vs, hvs, hproject⟩ := Option.bind_eq_some_iff.1 hx
  have hversion : ∀ ts : Timestamp, f[((⟨key, column⟩ : Cell), ts)]? = vs[ts]? := by
    intro ts
    rw [← h.version]
    unfold version?
    rw [hvs, Option.bind_some]
  have hmem : ∀ ts : Timestamp, ((⟨key, column⟩ : Cell), ts) ∈ f ↔ ts ∈ vs := by
    intro ts
    rw [ExtTreeMap.mem_iff_isSome_getElem?, hversion, ExtTreeMap.mem_iff_isSome_getElem?]
  cases projection with
  | latest =>
    have hlatest := latestBefore_latest h ⟨key, column⟩ t
    unfold latestBefore at hlatest
    rw [hvs, Option.bind_some] at hlatest
    have hx' : vs.latest t = some x := hproject
    rw [hx'] at hlatest
    exact hlatest
  | history =>
    have hx' : Projection.nonempty (vs.history t) = some x := hproject
    unfold Projection.nonempty at hx'
    split at hx'
    · cases hx'
    · obtain rfl := Option.some.inj hx'
      intro v
      unfold Versions.history
      rw [mem_setOfList, Versions.mem_before, hversion]
  | timestamps =>
    have hx' : Projection.nonempty (vs.timestamps t) = some x := hproject
    unfold Projection.nonempty at hx'
    split at hx'
    · cases hx'
    · obtain rfl := Option.some.inj hx'
      intro ts
      unfold FlatTable.Visible
      rw [Versions.mem_timestamps, hmem]

theorem scan_scanned {τ : Type} (h : Represents m f) (range : RowRange) (t : Timestamp)
    (projection : Projection τ) : f.Scanned range t projection (m.scan range t projection) := by
  have htable := m.scan_tabulates range t projection
  refine ⟨htable.ascending, ?_, ?_, ?_⟩
  · intro row hrow
    obtain ⟨column, hsome⟩ := (htable.keys row.key).1 (List.mem_map_of_mem hrow)
    rw [← htable.columns row hrow] at hsome
    unfold Row.isEmpty
    rw [Bool.eq_false_iff, ne_eq, ExtTreeMap.isEmpty_iff]
    intro hempty
    unfold Row.get? at hsome
    simp [hempty] at hsome
  · intro key column
    have hvisible : (m.payload? range t projection key column).isSome = true ↔ _ :=
      isSome_payload?_iff h
    rw [← hvisible]
    constructor
    · rintro ⟨row, hrow, rfl, hsome⟩
      rw [htable.columns row hrow] at hsome
      exact hsome
    · intro hsome
      obtain ⟨row, hrow, rfl⟩ := List.mem_map.1 ((htable.keys key).2 ⟨column, hsome⟩)
      refine ⟨row, hrow, rfl, ?_⟩
      rw [htable.columns row hrow]
      exact hsome
  · intro row hrow column x hx
    rw [htable.columns row hrow] at hx
    exact payload?_shows h hx

/-- Every read of a table is a read of a flat map. -/
structure Refines (m : Memtable) (f : FlatTable) : Prop where
  trimmed : m.Trimmed
  contains : ∀ cell, m.contains cell = true ↔ ∃ ts, (cell, ts) ∈ f
  latest : ∀ cell t, f.Latest cell t (m.latestBefore cell t)
  timestamps : ∀ cell t ts, ts ∈ m.timestampsBefore cell t ↔ f.Visible cell t ts
  removed : ∀ cell ts, (m.removeVersion cell ts).1 = f.contains (cell, ts)
  /-- There are as many cells as different ones among the keys of the map. -/
  size : m.size = (ExtTreeSet.ofList (f.keys.map Prod.fst) compare).size
  totalVersions : m.totalVersions = f.size
  isEmpty : m.isEmpty = f.isEmpty
  rowCells_ascending : ∀ row keep,
    (m.rowCells row keep).Pairwise fun a b => a.column < b.column
  mem_rowCells : ∀ row keep cell, cell ∈ m.rowCells row keep ↔
    (∃ ts, (cell, ts) ∈ f) ∧ cell.row = row ∧ keep cell.column = true
  scan : ∀ {τ : Type} (range : RowRange) (t : Timestamp) (projection : Projection τ),
    f.Scanned range t projection (m.scan range t projection)

/-- **A table refines a flat map.** After any changes it answers every read as the flat map with the
same changes does, and stores no cell without a version. -/
theorem refines_flat (changes : List TableChange) :
    Refines (changes.foldl apply {}) (changes.foldl FlatTable.apply ∅) := by
  have h := represents_run changes
  generalize changes.foldl apply {} = m at h ⊢
  generalize changes.foldl FlatTable.apply ∅ = f at h ⊢
  refine ⟨h.trimmed, ?_, latestBefore_latest h, ?_, removeVersion_fst h, size_eq h,
    totalVersions_eq h, isEmpty_eq h, rowCells_pairwise m, ?_, scan_scanned h⟩
  · intro cell
    simp only [contains_iff, h.mem_iff]
  · intro cell t ts
    exact mem_timestampsBefore h
  · intro row keep cell
    rw [mem_rowCells_iff, mem_cells_iff h]

end Memtable

end QuorumStore
