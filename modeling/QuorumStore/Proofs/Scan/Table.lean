import Mathlib.Data.List.Nodup
import QuorumStore.Proofs.Memtable
import QuorumStore.Proofs.RowRange
import QuorumStore.Proofs.Scan.Tabulated

/-!
# The rows of a table

A range read of one table runs through its cells in order and joins neighbours of one row.

* `Memtable.gatherRows_tabulates`: neighbouring cells of one row become that row.
* `Memtable.payload?`: what a range read gives for a key and a column.
* `Memtable.scan_tabulates`: **a range read tabulates what it gives for each cell.**
-/

namespace QuorumStore

open Std

variable {τ : Type}

section Gather

variable {f : Bytes → Bytes → Option τ} {rows : List (Row τ)} {key column : Bytes} {payload : τ}

theorem Tabulates.single (key column : Bytes) (payload : τ) :
    Tabulates (fun k c => if k = key ∧ c = column then some payload else none)
      [⟨key, (∅ : ExtTreeMap Bytes τ).insert column payload⟩] := by
  refine ⟨List.pairwise_singleton _ _, fun k => ?_, fun row hrow c => ?_⟩
  · rw [List.map_singleton, List.mem_singleton]
    constructor
    · rintro rfl
      exact ⟨column, by simp⟩
    · rintro ⟨c, hc⟩
      split at hc
      · rename_i h
        exact h.1
      · cases hc
  · cases List.mem_singleton.1 hrow
    unfold Row.get?
    rw [ExtTreeMap.getElem?_insert, ExtTreeMap.getElem?_empty]
    simp only [LawfulEqOrd.compare_eq_iff_eq, true_and]
    simp only [eq_comm]

/-- A cell of a row before all others makes a row of its own. -/
theorem Tabulates.consRow (h : Tabulates f rows) (hlt : ∀ row ∈ rows, key < row.key) :
    Tabulates (fun k c => if k = key ∧ c = column then some payload else f k c)
      (⟨key, (∅ : ExtTreeMap Bytes τ).insert column payload⟩ :: rows) := by
  refine ((Tabulates.single key column payload).append h ?_).congr fun k c => ?_
  · intro a ha b hb
    cases List.mem_singleton.1 ha
    exact hlt b hb
  · split
    · exact Option.some_or
    · exact Option.none_or

/-- A cell of the first row joins it. -/
theorem Tabulates.consCell {row : Row τ} (h : Tabulates f (row :: rows)) :
    Tabulates (fun k c => if k = row.key ∧ c = column then some payload else f k c)
      ({ row with columns := row.columns.insert column payload } :: rows) := by
  obtain ⟨hfirst, hrest⟩ := List.pairwise_cons.1 h.ascending
  refine ⟨List.pairwise_cons.2 ⟨hfirst, hrest⟩, fun k => ?_, fun other hother c => ?_⟩
  · have hkeys := h.keys k
    rw [List.map_cons, List.mem_cons] at hkeys ⊢
    rw [hkeys]
    constructor
    · rintro ⟨c, hc⟩
      refine ⟨c, ?_⟩
      split
      · rfl
      · exact hc
    · rintro ⟨c, hc⟩
      split at hc
      · rename_i hk
        exact hkeys.1 (Or.inl hk.1)
      · exact ⟨c, hc⟩
  · rcases List.mem_cons.1 hother with rfl | hother
    · unfold Row.get?
      rw [ExtTreeMap.getElem?_insert]
      by_cases hc : column = c
      · rw [if_pos (by rw [hc]; exact compare_self), if_pos ⟨rfl, hc.symm⟩]
      · rw [if_neg fun heq => hc (LawfulEqOrd.eq_of_compare heq), if_neg fun heq => hc heq.2.symm]
        exact h.columns row List.mem_cons_self c
    · have hne : other.key ≠ row.key := by
        intro heq
        have hlt := hfirst other hother
        rw [heq] at hlt
        exact List.lt_irrefl _ hlt
      rw [if_neg fun heq => hne heq.1]
      exact h.columns other (List.mem_cons_of_mem _ hother) c

end Gather

namespace Memtable

/-- **Cells in order** become the table of their payloads. -/
theorem gatherRows_tabulates {l : List (Cell × τ)}
    (hsorted : l.Pairwise fun a b => compare a.1 b.1 = .lt) :
    Tabulates
      (fun key column => (l.find? fun e => e.1 = (⟨key, column⟩ : Cell)).map Prod.snd)
      (gatherRows l) := by
  induction l with
  | nil => exact ⟨.nil, by simp [gatherRows], by simp [gatherRows]⟩
  | cons e l ih =>
    obtain ⟨⟨key, column⟩, payload⟩ := e
    obtain ⟨hfirst, hrest⟩ := List.pairwise_cons.1 hsorted
    have htable := ih hrest
    have hle : ∀ row ∈ gatherRows l, key ≤ row.key := by
      intro row hrow
      obtain ⟨c, hsome⟩ := (htable.keys row.key).1 (List.mem_map_of_mem hrow)
      rw [Option.isSome_map, List.find?_isSome] at hsome
      obtain ⟨e, he, heq⟩ := hsome
      have hcell := row_le_of_compare_lt (hfirst e he)
      rw [of_decide_eq_true heq] at hcell
      exact hcell
    -- the look-up finds the first cell or goes on behind it
    have hfind : ∀ k c, (if k = key ∧ c = column then some payload else
          (l.find? fun e => e.1 = (⟨k, c⟩ : Cell)).map Prod.snd) =
        ((((⟨key, column⟩ : Cell), payload) :: l).find? fun e =>
          e.1 = (⟨k, c⟩ : Cell)).map Prod.snd := by
      intro k c
      rw [List.find?_cons]
      by_cases hcell : k = key ∧ c = column
      · simp [hcell]
      · have hne : (⟨key, column⟩ : Cell) ≠ ⟨k, c⟩ := by
          intro heq
          cases heq
          exact hcell ⟨rfl, rfl⟩
        simp [hcell, hne]
    unfold gatherRows
    split
    · rename_i hnil
      rw [hnil] at htable
      exact (htable.consRow (by simp)).congr hfind
    · rename_i row rows hcons
      rw [hcons] at htable hle
      by_cases hkey : row.key = key
      · rw [if_pos hkey]
        subst hkey
        exact htable.consCell.congr hfind
      · rw [if_neg hkey]
        refine (htable.consRow fun other hother => ?_).congr hfind
        have hlt : key < row.key :=
          List.not_le.1 fun hge => hkey (List.le_antisymm hge (hle row List.mem_cons_self))
        rcases List.mem_cons.1 hother with rfl | hother
        · exact hlt
        · exact List.lt_trans hlt ((List.pairwise_cons.1 htable.ascending).1 other hother)

/-- What a range read gives for a key and a column, if both are selected. -/
def payload? (m : Memtable) (range : RowRange) (t : Timestamp) (projection : Projection τ)
    (key column : Bytes) : Option τ :=
  if range.contains key = true ∧ range.columns.keeps column = true then
    m.cells[(⟨key, column⟩ : Cell)]?.bind fun vs => projection.project vs t
  else none

/-- The cells that a range read looks at: those from its start on, up to its end. -/
theorem mem_takeWhile_contains {m : Memtable} {range : RowRange} {cell : Cell} {vs : Versions} :
    (cell, vs) ∈ (m.cellsFrom ⟨range.start, []⟩).takeWhile (fun e => range.contains e.1.row) ↔
      m.cells[cell]? = some vs ∧ range.contains cell.row = true := by
  have hsorted : (m.cellsFrom ⟨range.start, []⟩).Pairwise fun a b => compare a.1 b.1 = .lt :=
    ExtTreeMap.ordered_keys_toList.sublist (List.dropWhile_sublist _)
  have hmono : (m.cellsFrom ⟨range.start, []⟩).Pairwise fun a b =>
      range.contains b.1.row = true → range.contains a.1.row = true := by
    refine hsorted.imp_of_mem fun {a b} ha _ hab hb => ?_
    have hle := row_le_of_compare_lt hab
    rw [RowRange.contains_iff] at hb ⊢
    exact ⟨(mem_cellsFrom_iff.1 ha).2, hb.2.imp id fun hlt => List.lt_of_le_of_lt hle hlt⟩
  rw [mem_takeWhile_iff hmono, mem_cellsFrom_iff]
  constructor
  · exact fun ⟨⟨hget, _⟩, hin⟩ => ⟨hget, hin⟩
  · exact fun ⟨hget, hin⟩ => ⟨⟨hget, (RowRange.contains_iff.1 hin).1⟩, hin⟩

/-- In a list with distinct cells a look-up finds the entry of its cell. -/
theorem find?_eq_some_iff_mem {l : List (Cell × τ)} {cell : Cell} {payload : τ}
    (hsorted : l.Pairwise fun a b => compare a.1 b.1 = .lt) :
    (l.find? fun e => e.1 = cell).map Prod.snd = some payload ↔ (cell, payload) ∈ l := by
  have hdistinct : (l.map Prod.fst).Nodup := by
    refine List.pairwise_map.2 (hsorted.imp fun {a b} hab heq => ?_)
    rw [heq, compare_self] at hab
    cases hab
  constructor
  · intro h
    obtain ⟨⟨c, p⟩, hfind, rfl⟩ := Option.map_eq_some_iff.1 h
    have hcell : c = cell := by simpa using List.find?_some hfind
    cases hcell
    exact List.mem_of_find?_eq_some hfind
  · intro hmem
    have hsome : (l.find? fun e => e.1 = cell).isSome = true :=
      List.find?_isSome.2 ⟨_, hmem, decide_eq_true rfl⟩
    obtain ⟨e, he⟩ := Option.isSome_iff_exists.1 hsome
    have hcell : e.1 = cell := by simpa using List.find?_some he
    have heq : e = (cell, payload) :=
      List.inj_on_of_nodup_map hdistinct (List.mem_of_find?_eq_some he) hmem hcell
    rw [he, heq]
    rfl

/-- **A range read tabulates what it gives for each cell.** -/
theorem scan_tabulates (m : Memtable) (range : RowRange) (t : Timestamp)
    (projection : Projection τ) :
    Tabulates (m.payload? range t projection) (m.scan range t projection) := by
  have hcells : (m.cellsFrom ⟨range.start, []⟩).Pairwise fun a b => compare a.1 b.1 = .lt :=
    ExtTreeMap.ordered_keys_toList.sublist (List.dropWhile_sublist _)
  have hsorted := hcells.sublist (List.takeWhile_sublist fun e => range.contains e.1.row)
  -- what is given for a cell keeps the cell
  have hpayloads : ((((m.cellsFrom ⟨range.start, []⟩).takeWhile fun e =>
      range.contains e.1.row).filterMap fun e =>
        if range.columns.keeps e.1.column then (projection.project e.2 t).map (e.1, ·)
        else none)).Pairwise fun a b => compare a.1 b.1 = .lt := by
    refine List.pairwise_filterMap.2 (hsorted.imp fun {a b} hab => ?_)
    intro x hx y hy
    split at hx
    · split at hy
      · obtain ⟨_, -, rfl⟩ := Option.map_eq_some_iff.1 hx
        obtain ⟨_, -, rfl⟩ := Option.map_eq_some_iff.1 hy
        exact hab
      · cases hy
    · cases hx
  refine (gatherRows_tabulates hpayloads).congr fun key column => Option.ext fun payload => ?_
  rw [find?_eq_some_iff_mem hpayloads, List.mem_filterMap]
  unfold payload?
  constructor
  · rintro ⟨⟨cell, vs⟩, hmem, hgive⟩
    obtain ⟨hget, hin⟩ := mem_takeWhile_contains.1 hmem
    split at hgive
    · rename_i hkeep
      obtain ⟨p, hp, heq⟩ := Option.map_eq_some_iff.1 hgive
      cases heq
      rw [if_pos ⟨hin, hkeep⟩, hget]
      exact hp
    · cases hgive
  · intro hgive
    split at hgive
    · rename_i hselected
      obtain ⟨vs, hget, hp⟩ := Option.bind_eq_some_iff.1 hgive
      refine ⟨(⟨key, column⟩, vs), mem_takeWhile_contains.2 ⟨hget, hselected.1⟩, ?_⟩
      rw [if_pos hselected.2, hp]
      rfl
    · cases hgive

end Memtable

end QuorumStore
