import QuorumStore.Memtable
import QuorumStore.Proofs.OrderedMap
import QuorumStore.Proofs.SortedList

/-!
# A table as a flat map of versions

What a table holds is a partial map from cells and timestamps to contents. The changes of a table
change that map at one place, and point reads look up its greatest visible timestamp.

* `Memtable.version?`: the flat map.
* `version?_put`, `version?_removeVersion`, `version?_clear`: the changes.
* `latestBefore_eq_some_iff`: what a point read returns.
* `mem_rowCells_iff`: the cells of a row.
-/

namespace QuorumStore

open Std

namespace Versions

variable {vs : Versions} {t : Timestamp} {v : Value}

theorem mem_before : v ∈ vs.before t ↔ vs[v.timestamp]? = some v.contents ∧ v.timestamp < t := by
  unfold before
  simp only [List.mem_map, List.mem_filter, decide_eq_true_eq, Prod.exists,
    ExtTreeMap.mem_toList_iff_getElem?_eq_some]
  constructor
  · rintro ⟨ts, contents, ⟨hget, hlt⟩, rfl⟩
    exact ⟨hget, hlt⟩
  · rintro ⟨hget, hlt⟩
    exact ⟨v.timestamp, v.contents, ⟨hget, hlt⟩, rfl⟩

theorem before_pairwise (vs : Versions) (t : Timestamp) :
    (vs.before t).Pairwise fun a b => a.timestamp < b.timestamp := by
  unfold before
  rw [List.pairwise_map]
  refine (ExtTreeMap.ordered_keys_toList.imp fun h => ?_).filter _
  exact compare_eq_lt.1 h

/-- **The latest visible version** is the one whose timestamp no visible version exceeds. -/
theorem latest_eq_some_iff : vs.latest t = some v ↔
    (vs[v.timestamp]? = some v.contents ∧ v.timestamp < t) ∧
      ∀ ts ∈ vs, ts < t → ts ≤ v.timestamp := by
  unfold latest
  rw [getLast?_eq_some_iff_greatest (fun a b => a.timestamp < b.timestamp) (fun a => Std.lt_irrefl)
    (fun a b c => Std.lt_trans) (before_pairwise vs t), mem_before]
  refine and_congr_right fun hv => ⟨fun h ts hts hlt => ?_, fun h w hw => ?_⟩
  · obtain ⟨contents, hget⟩ := Option.isSome_iff_exists.1 (ExtTreeMap.mem_iff_isSome_getElem?.1 hts)
    rcases h ⟨contents, ts⟩ (mem_before.2 ⟨hget, hlt⟩) with rfl | hless
    · exact Std.le_refl _
    · exact Std.le_of_lt hless
  · obtain ⟨hget, hlt⟩ := mem_before.1 hw
    have hle := h w.timestamp (ExtTreeMap.mem_iff_isSome_getElem?.2 (by rw [hget]; rfl)) hlt
    rcases Std.le_iff_lt_or_eq.1 hle with hless | heq
    · exact Or.inr hless
    · refine Or.inl ?_
      rw [heq, hv.1, Option.some.injEq] at hget
      cases w; cases v; simp_all

theorem mem_timestamps {ts : Timestamp} : ts ∈ vs.timestamps t ↔ ts ∈ vs ∧ ts < t := by
  unfold timestamps
  rw [mem_setOfList, List.mem_map]
  constructor
  · rintro ⟨v, hv, rfl⟩
    obtain ⟨hget, hlt⟩ := mem_before.1 hv
    refine ⟨ExtTreeMap.mem_iff_isSome_getElem?.2 ?_, hlt⟩
    simp [hget]
  · rintro ⟨hmem, hlt⟩
    obtain ⟨contents, hget⟩ := Option.isSome_iff_exists.1 (ExtTreeMap.mem_iff_isSome_getElem?.1 hmem)
    exact ⟨⟨contents, ts⟩, mem_before.2 ⟨hget, hlt⟩, rfl⟩

end Versions

namespace Memtable

variable {m : Memtable} {cell c : Cell} {t ts ts' : Timestamp} {contents : Bytes} {v : Value}

/-- The contents of a version. -/
def version? (m : Memtable) (cell : Cell) (ts : Timestamp) : Option Bytes :=
  m.cells[cell]?.bind (·[ts]?)

/-- **Writing a version** puts it into the map and leaves every other version alone. -/
theorem version?_put (m : Memtable) (c : Cell) (ts' : Timestamp) (contents : Bytes) :
    (m.put c ts' contents).version? cell ts =
      if c = cell ∧ ts' = ts then some contents else m.version? cell ts := by
  unfold put version?
  rw [ExtTreeMap.getElem?_insert]
  by_cases hc : c = cell
  · subst hc
    rw [if_pos compare_self, Option.bind_some, ExtTreeMap.getElem?_insert]
    by_cases hts : ts' = ts
    · rw [if_pos (by rw [hts]; exact compare_self), if_pos ⟨rfl, hts⟩]
    · rw [if_neg fun h => hts (LawfulEqOrd.eq_of_compare h), if_neg fun h => hts h.2,
        ExtTreeMap.getD_eq_getD_getElem?]
      cases m.cells[c]? <;> simp
  · rw [if_neg fun h => hc (LawfulEqOrd.eq_of_compare h), if_neg fun h => hc h.1]

/-- A cell that is left without versions has no entry, which looks the same. -/
theorem bind_eraseOrInsert (cells : ExtTreeMap Cell Versions) (c : Cell) (vs : Versions) :
    (if vs.isEmpty then cells.erase c else cells.insert c vs)[cell]?.bind (·[ts]?) =
      if c = cell then vs[ts]? else cells[cell]?.bind (·[ts]?) := by
  by_cases hc : c = cell
  · subst hc
    split
    · rename_i hempty
      rw [ExtTreeMap.getElem?_erase, if_pos compare_self, if_pos rfl, Option.bind_none]
      rw [ExtTreeMap.isEmpty_iff] at hempty
      rw [hempty, ExtTreeMap.getElem?_empty]
    · rw [ExtTreeMap.getElem?_insert, if_pos compare_self, if_pos rfl, Option.bind_some]
  · have hne : ¬ compare c cell = .eq := fun h => hc (LawfulEqOrd.eq_of_compare h)
    rw [if_neg hc]
    split
    · rw [ExtTreeMap.getElem?_erase, if_neg hne]
    · rw [ExtTreeMap.getElem?_insert, if_neg hne]

/-- **Removing a version** takes it out of the map and leaves every other version alone. -/
theorem version?_removeVersion (m : Memtable) (c : Cell) (ts' : Timestamp) :
    (m.removeVersion c ts').2.version? cell ts =
      if c = cell ∧ ts' = ts then none else m.version? cell ts := by
  unfold removeVersion version?
  cases hcell : m.cells[c]? with
  | none =>
    by_cases hc : c = cell
    · subst hc
      simp [hcell]
    · rw [if_neg fun h => hc h.1]
  | some vs =>
    refine (bind_eraseOrInsert m.cells c (vs.erase ts')).trans ?_
    by_cases hc : c = cell
    · subst hc
      rw [if_pos rfl, ExtTreeMap.getElem?_erase, hcell, Option.bind_some]
      by_cases hts : ts' = ts
      · rw [if_pos (by rw [hts]; exact compare_self), if_pos ⟨rfl, hts⟩]
      · rw [if_neg fun h => hts (LawfulEqOrd.eq_of_compare h), if_neg fun h => hts h.2]
    · rw [if_neg hc, if_neg fun h => hc h.1]

theorem version?_clear (m : Memtable) : m.clear.version? cell ts = none := by
  unfold clear version?
  rw [ExtTreeMap.getElem?_empty]
  rfl

/-- A cell has a version exactly if the map knows one. -/
theorem contains_iff : m.contains cell = true ↔ ∃ ts, (m.version? cell ts).isSome = true := by
  unfold contains version?
  cases m.cells[cell]? with
  | none => simp
  | some vs =>
    simp only [Option.any_some, Option.bind_some, Bool.not_eq_true', ← ExtTreeMap.mem_iff_isSome_getElem?]
    rw [Bool.eq_false_iff, ne_eq, ExtTreeMap.isEmpty_iff, ExtTreeMap.eq_empty_iff_forall_not_mem]
    push Not
    rfl

/-- **What a point read returns**: the visible version with the greatest timestamp. -/
theorem latestBefore_eq_some_iff : m.latestBefore cell t = some v ↔
    (m.version? cell v.timestamp = some v.contents ∧ v.timestamp < t) ∧
      ∀ ts, (m.version? cell ts).isSome = true → ts < t → ts ≤ v.timestamp := by
  unfold latestBefore version?
  cases m.cells[cell]? with
  | none => simp
  | some vs =>
    simp only [Option.bind_some, Versions.latest_eq_some_iff, ← ExtTreeMap.mem_iff_isSome_getElem?]

/-- A read finds something at or after every visible version. -/
theorem exists_latestBefore (h : (m.version? cell ts).isSome = true) (hlt : ts < t) :
    ∃ v, m.latestBefore cell t = some v ∧ ts ≤ v.timestamp := by
  cases hv : m.latestBefore cell t with
  | some v => exact ⟨v, rfl, (latestBefore_eq_some_iff.1 hv).2 ts h hlt⟩
  | none =>
    -- with nothing to be found no version is visible
    unfold latestBefore at hv
    unfold version? at h
    cases hcell : m.cells[cell]? with
    | none =>
      rw [hcell] at h
      cases h
    | some vs =>
      rw [hcell, Option.bind_some] at h hv
      obtain ⟨contents, hget⟩ := Option.isSome_iff_exists.1 h
      have hmem : (⟨contents, ts⟩ : Value) ∈ vs.before t := Versions.mem_before.2 ⟨hget, hlt⟩
      rw [List.getLast?_eq_none_iff.1 hv] at hmem
      cases hmem

/-- **The timestamps that a point read returns** are those of the visible versions. -/
theorem mem_timestampsBefore_iff : ts ∈ m.timestampsBefore cell t ↔
    (m.version? cell ts).isSome = true ∧ ts < t := by
  unfold timestampsBefore version?
  cases m.cells[cell]? with
  | none => simp
  | some vs => simp [Versions.mem_timestamps]

theorem mem_cells_of_version? (h : (m.version? cell ts).isSome = true) : cell ∈ m.cells := by
  unfold version? at h
  rw [ExtTreeMap.mem_iff_isSome_getElem?]
  cases hcell : m.cells[cell]? with
  | none =>
    rw [hcell] at h
    cases h
  | some vs => rfl

/-- The order of cells respects that of their rows. -/
theorem row_le_of_compare_lt {a b : Cell} (h : compare a b = .lt) : a.row ≤ b.row := by
  rw [Cell.compare_def, Ordering.then_eq_lt] at h
  rcases h with h | ⟨h, -⟩
  · exact List.le_of_lt ((Bytes.compare_eq_lt_iff _ _).1 h)
  · rw [LawfulEqOrd.eq_of_compare h]
    exact List.le_refl _

/-- The first cell of a row comes after exactly the cells of lesser rows. -/
theorem compare_first_of_row {a : Cell} {row : Bytes} :
    (compare a ⟨row, []⟩).isLT = true ↔ a.row < row := by
  rw [Ordering.isLT_iff_eq_lt, Cell.compare_def, Ordering.then_eq_lt, ← Bytes.compare_eq_lt_iff]
  constructor
  · rintro (h | ⟨-, h⟩)
    · exact h
    · exact absurd ((Bytes.compare_eq_lt_iff _ _).1 h) (List.not_lt_nil _)
  · exact Or.inl

/-- The cells from the first of a row on. -/
theorem mem_cellsFrom_iff {row : Bytes} {vs : Versions} : (cell, vs) ∈ m.cellsFrom ⟨row, []⟩ ↔
    m.cells[cell]? = some vs ∧ row ≤ cell.row := by
  unfold cellsFrom
  rw [mem_dropWhile_iff, ExtTreeMap.mem_toList_iff_getElem?_eq_some, Bool.eq_false_iff, ne_eq,
    compare_first_of_row, List.not_lt]
  refine ExtTreeMap.ordered_keys_toList.imp fun {a b} hab hb => ?_
  rw [compare_first_of_row] at hb ⊢
  exact List.lt_of_le_of_lt (row_le_of_compare_lt hab) hb

/-- **The cells of a row** are the cells of the table with that row and a column that is kept. -/
theorem mem_rowCells_iff {row : Bytes} {keep : Bytes → Bool} : cell ∈ m.rowCells row keep ↔
    cell ∈ m.cells ∧ cell.row = row ∧ keep cell.column = true := by
  have hsorted : (m.cellsFrom ⟨row, []⟩).Pairwise fun a b => compare a.1 b.1 = .lt :=
    ExtTreeMap.ordered_keys_toList.sublist (List.dropWhile_sublist _)
  -- from the first cell of the row on, its cells come before all others
  have hmono : ((m.cellsFrom ⟨row, []⟩).map Prod.fst).Pairwise
      fun a b => decide (b.row = row) = true → decide (a.row = row) = true := by
    rw [List.pairwise_map]
    refine hsorted.imp_of_mem fun {a b} ha _ hab hb => ?_
    rw [decide_eq_true_eq] at hb ⊢
    have hle := row_le_of_compare_lt hab
    have hge := (mem_cellsFrom_iff.1 ha).2
    rw [hb] at hle
    exact List.le_antisymm hle hge
  unfold rowCells
  rw [List.mem_filter, mem_takeWhile_iff hmono, decide_eq_true_eq, List.mem_map, and_assoc]
  constructor
  · rintro ⟨⟨⟨c, vs⟩, hmem, rfl⟩, hrow, hkeep⟩
    refine ⟨?_, hrow, hkeep⟩
    rw [ExtTreeMap.mem_iff_isSome_getElem?, (mem_cellsFrom_iff.1 hmem).1]
    rfl
  · rintro ⟨hmem, hrow, hkeep⟩
    obtain ⟨vs, hvs⟩ := Option.isSome_iff_exists.1 (ExtTreeMap.mem_iff_isSome_getElem?.1 hmem)
    refine ⟨⟨(cell, vs), mem_cellsFrom_iff.2 ⟨hvs, ?_⟩, rfl⟩, hrow, hkeep⟩
    rw [hrow]
    exact List.le_refl _

end Memtable

end QuorumStore
