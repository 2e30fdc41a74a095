import QuorumStore.Proofs.Memtable
import QuorumStore.Store

/-!
# What a store holds

A store is looked at as a set of versions. Each verb writes some, leaves most alone, and answers
from those it finds.

* `Store.Holds`: a store has a version of a cell.
* `Verb.Writes`, `Verb.Spares`, `Verb.Deletes`, `Verb.ReadsAt`: the versions that a verb writes, does
  not remove and deletes, and the cells that it reads.
* `holds_run_of_spares`, `holds_run_of_writes`, `not_holds_run_of_deletes`: what holds after a verb.
* `of_holds_run`: whatever holds after a verb held before it, or has been written by it.
* `stamp?_of_holds`: a read finds nothing older than a visible version.
* `not_holds_of_run_putUnlessExists`: a conditional write succeeds only where none of its cells has
  a version.
-/

namespace QuorumStore

open Std

/-- A computation that succeeds has a first part that succeeds. -/
theorem exists_of_bind_eq_ok {α β : Type} {x : Except Failure α} {f : α → Except Failure β} {b : β}
    (h : (x >>= f) = .ok b) : ∃ a, x = .ok a ∧ f a = .ok b := by
  cases x with
  | error e => cases h
  | ok a => exact ⟨a, rfl, h⟩

namespace Table

variable {t t' : Table} {cell : Cell} {ts : Timestamp} {entries : List (Cell × Value)}

/-- After a batch a table has the versions of the batch and those it had. -/
theorem isSome_version?_store (t : Table) (entries : List (Cell × Value)) :
    ((t.store entries).data.version? cell ts).isSome = true ↔
      (∃ contents, (cell, ⟨contents, ts⟩) ∈ entries) ∨ (t.data.version? cell ts).isSome = true := by
  unfold store
  simp only
  generalize t.data = m
  induction entries generalizing m with
  | nil => simp
  | cons e entries ih =>
    obtain ⟨c, ⟨contents, ts'⟩⟩ := e
    rw [List.foldl_cons, ih, Memtable.version?_put]
    by_cases h : c = cell ∧ ts' = ts
    · obtain ⟨rfl, rfl⟩ := h
      simp
    · have hne : ∀ contents', (cell, (⟨contents', ts⟩ : Value)) ≠ (c, ⟨contents, ts'⟩) := by
        intro contents' heq
        cases heq
        exact h ⟨rfl, rfl⟩
      rw [if_neg h]
      simp only [List.mem_cons, hne, false_or]

theorem eq_store_of_write (h : t.write entries = .ok t') : t' = t.store entries := by
  obtain ⟨_, -, hstore⟩ := exists_of_bind_eq_ok h
  exact (Except.ok.inj hstore).symm

/-- A conditional batch is stored only where none of its cells has a version. -/
theorem of_writeUnlessExists (h : t.writeUnlessExists entries = .ok t') :
    t' = t.store entries ∧ ∀ e ∈ entries, ¬ t.data.contains e.1 = true := by
  unfold writeUnlessExists at h
  split at h
  · cases h
  · rename_i hfind
    exact ⟨eq_store_of_write h, fun e he => List.find?_eq_none.1 hfind e he⟩

/-- After versions are removed the others are left. -/
theorem isSome_version?_removed (m : Memtable) (versions : List (Cell × Timestamp)) :
    ((versions.foldl (fun m (cell, ts) => (m.removeVersion cell ts).2) m).version? cell ts).isSome
        = true ↔
      (m.version? cell ts).isSome = true ∧ (cell, ts) ∉ versions := by
  induction versions generalizing m with
  | nil => simp
  | cons v versions ih =>
    rw [List.foldl_cons, ih, Memtable.version?_removeVersion]
    by_cases h : v.1 = cell ∧ v.2 = ts
    · have hv : v = (cell, ts) := Prod.ext h.1 h.2
      rw [if_pos h, hv]
      simp
    · have hne : (cell, ts) ≠ v := fun heq => h (by rw [← heq]; exact ⟨rfl, rfl⟩)
      rw [if_neg h, List.mem_cons, not_or]
      simp only [hne, not_false_eq_true, true_and]

end Table

theorem mem_entriesAt {values : ExtTreeMap Cell Bytes} {ts : Timestamp} {cell : Cell} {v : Value} :
    (cell, v) ∈ entriesAt values ts ↔ values[cell]? = some v.contents ∧ v.timestamp = ts := by
  unfold entriesAt
  simp only [List.mem_map, Prod.exists, ExtTreeMap.mem_toList_iff_getElem?_eq_some, Prod.mk.injEq]
  constructor
  · rintro ⟨c, contents, hget, rfl, rfl⟩
    exact ⟨hget, rfl⟩
  · rintro ⟨hget, rfl⟩
    exact ⟨cell, v.contents, hget, rfl, rfl⟩

namespace Verb

/-- The versions that a verb writes where it succeeds. -/
def Writes {α : Type} : Verb α → TableName → Cell → Timestamp → Prop
  | .put table values ts, table', cell, ts' => table = table' ∧ cell ∈ values ∧ ts = ts'
  | .putWithTimestamps table entries, table', cell, ts' =>
    table = table' ∧ ∃ contents, (cell, ⟨contents, ts'⟩) ∈ entries
  | .putUnlessExists table values, table', cell, ts' => table = table' ∧ cell ∈ values ∧ 0 = ts'
  | .addSentinels table cells, table', cell, ts' =>
    table = table' ∧ cell ∈ cells ∧ sentinelTimestamp = ts'
  | _, _, _, _ => False

/-- Whether a verb removes no version of the kind: neither that version nor its whole table. -/
def Spares {α : Type} : Verb α → TableName → Cell → Timestamp → Prop
  | .delete table versions, table', cell, ts => table = table' → (cell, ts) ∉ versions
  | .truncateTable table, table', _, _ => table ≠ table'
  | .dropTable table, table', _, _ => table ≠ table'
  | .teardown, _, _, _ => False
  | _, _, _, _ => True

/-- The versions that a verb deletes by name. -/
def Deletes {α : Type} : Verb α → TableName → Cell → Timestamp → Prop
  | .delete table versions, table', cell, ts => table = table' ∧ (cell, ts) ∈ versions
  | _, _, _, _ => False

/-- The cells that a verb reads the latest version of, each with the time it is read at. -/
def ReadsAt {α : Type} : Verb α → TableName → Cell → Timestamp → Prop
  | .getRows table rows columns t, table', cell, t' =>
    table = table' ∧ cell.row ∈ rows ∧ columns.keeps cell.column = true ∧ t = t'
  | .get table cells, table', cell, t' => table = table' ∧ cells[cell]? = some t'
  | .getLatestTimestamps table cells, table', cell, t' => table = table' ∧ cells[cell]? = some t'
  | _, _, _, _ => False

/-- The timestamp that the answer to a read of latest versions has for a cell. -/
def stamp? {α : Type} : Verb α → α → Cell → Option Timestamp
  | .getRows .., answer, cell => (answer[cell]?).map Value.timestamp
  | .get .., answer, cell => (answer[cell]?).map Value.timestamp
  | .getLatestTimestamps .., answer, cell => answer[cell]?
  | _, _, _ => none

/-- A property of stores is still true after a verb, whatever the verb is answered with. -/
def Preserves {α : Type} (v : Verb α) (J : Store → Prop) : Prop := ∀ s, J s → J (Store.run v s).2

end Verb

namespace Store

variable {α : Type} {s : Store} {table table' : TableName} {cell : Cell} {t ts : Timestamp}
  {f : Table → Except Failure Table}

/-- The contents of a version of a table. -/
def version? (s : Store) (table : TableName) (cell : Cell) (ts : Timestamp) : Option Bytes :=
  s.tables[table]?.bind (·.data.version? cell ts)

/-- The store has a version of the cell at the timestamp. -/
def Holds (s : Store) (table : TableName) (cell : Cell) (ts : Timestamp) : Prop :=
  (s.version? table cell ts).isSome = true

theorem holds_iff : s.Holds table cell ts ↔
    ∃ tbl, s.tables[table]? = some tbl ∧ (tbl.data.version? cell ts).isSome = true := by
  unfold Holds version?
  cases s.tables[table]? with
  | none => simp
  | some tbl => simp

/-- A change of a table either fails and changes nothing, or replaces the table. -/
theorem update_cases (s : Store) (table : TableName) (f : Table → Except Failure Table) :
    (∃ e, s.update table f = (.error e, s)) ∨
      ∃ tbl tbl', s.tables[table]? = some tbl ∧ f tbl = .ok tbl' ∧
        s.update table f = (.ok (), { s with tables := s.tables.insert table tbl' }) := by
  unfold update
  cases s.tables[table]? with
  | none => exact Or.inl ⟨_, rfl⟩
  | some tbl =>
    simp only
    cases hf : f tbl with
    | error e => exact Or.inl ⟨e, rfl⟩
    | ok tbl' => exact Or.inr ⟨tbl, tbl', rfl, hf, rfl⟩

theorem holds_insert {tbl : Table} :
    ({ s with tables := s.tables.insert table tbl } : Store).Holds table' cell ts ↔
      if table = table' then (tbl.data.version? cell ts).isSome = true
      else s.Holds table' cell ts := by
  rw [holds_iff, ExtTreeMap.getElem?_insert]
  by_cases h : table = table'
  · subst h
    rw [if_pos compare_self, if_pos rfl]
    simp
  · rw [if_neg fun hc => h (LawfulEqOrd.eq_of_compare hc), if_neg h, holds_iff]

/-- A change of a table keeps a version if the table keeps it. -/
theorem holds_update (h : s.Holds table' cell ts)
    (hkeep : ∀ tbl tbl', f tbl = .ok tbl' → table = table' →
      (tbl.data.version? cell ts).isSome = true → (tbl'.data.version? cell ts).isSome = true) :
    (s.update table f).2.Holds table' cell ts := by
  rcases s.update_cases table f with ⟨e, heq⟩ | ⟨tbl, tbl', htbl, hf, heq⟩
  · rw [heq]
    exact h
  · rw [heq, holds_insert]
    split
    · rename_i hsame
      subst hsame
      obtain ⟨tbl₀, htbl₀, hv⟩ := holds_iff.1 h
      obtain rfl := Option.some.inj (htbl.symm.trans htbl₀)
      exact hkeep tbl tbl' hf rfl hv
    · exact h

/-- Storing a batch keeps every version. -/
theorem holds_update_store (h : s.Holds table' cell ts) {entries : List (Cell × Value)}
    (hstore : ∀ tbl tbl', f tbl = .ok tbl' → tbl' = tbl.store entries) :
    (s.update table f).2.Holds table' cell ts := by
  refine holds_update h fun tbl tbl' hf _ hv => ?_
  rw [hstore tbl tbl' hf]
  exact (tbl.isSome_version?_store entries).2 (Or.inr hv)

/-- **A version that a verb spares is still there after it.** -/
theorem holds_run_of_spares {v : Verb α} (hspares : v.Spares table cell ts)
    (h : s.Holds table cell ts) : (run v s).2.Holds table cell ts := by
  cases v with
  | put _ values ts' => exact holds_update_store h fun _ _ => Table.eq_store_of_write
  | putWithTimestamps _ entries => exact holds_update_store h fun _ _ => Table.eq_store_of_write
  | putUnlessExists _ values =>
    exact holds_update_store h fun _ _ hf => (Table.of_writeUnlessExists hf).1
  | addSentinels _ cells =>
    exact holds_update_store h fun _ _ hf => (Except.ok.inj hf).symm
  | delete _ versions =>
    refine holds_update h fun tbl tbl' hf hsame hv => ?_
    rw [← Except.ok.inj hf]
    exact (Table.isSome_version?_removed _ _).2 ⟨hv, hspares hsame⟩
  | truncateTable _ => exact holds_update h fun _ _ _ hsame _ => absurd hsame hspares
  | putMetadata _ metadata =>
    refine holds_update h fun tbl tbl' hf _ hv => ?_
    rw [← Except.ok.inj hf]
    exact hv
  | createTable other maxValueSize =>
    -- a table that exists is not created anew
    obtain ⟨tbl, htbl, hv⟩ := holds_iff.1 h
    refine holds_iff.2 ⟨tbl, ?_, hv⟩
    show (s.tables.insertIfNew other { maxValueSize })[table]? = some tbl
    rw [ExtTreeMap.getElem?_insertIfNew, if_neg, htbl]
    rintro ⟨heq, hnew⟩
    rw [LawfulEqOrd.eq_of_compare heq, ExtTreeMap.mem_iff_isSome_getElem?, htbl] at hnew
    exact hnew rfl
  | dropTable other =>
    obtain ⟨tbl, htbl, hv⟩ := holds_iff.1 h
    refine holds_iff.2 ⟨tbl, ?_, hv⟩
    show (s.tables.erase other)[table]? = some tbl
    rw [ExtTreeMap.getElem?_erase, if_neg fun heq => hspares (LawfulEqOrd.eq_of_compare heq), htbl]
  | teardown => exact hspares.elim
  -- the others leave the tables alone
  | getRows | get | getLatestTimestamps | getAllTimestamps | tableNames | getMetadata | allMetadata
  | compact | prepareFresh | close => exact h

/-- A version of a stored batch is there after it. -/
theorem holds_update_of_mem {entries : List (Cell × Value)} {contents : Bytes}
    (hok : (s.update table f).1 = .ok ()) (hmem : (cell, ⟨contents, ts⟩) ∈ entries)
    (hstore : ∀ tbl tbl', f tbl = .ok tbl' → tbl' = tbl.store entries) :
    (s.update table f).2.Holds table cell ts := by
  rcases s.update_cases table f with ⟨e, heq⟩ | ⟨tbl, tbl', -, hf, heq⟩
  · rw [heq] at hok
    cases hok
  · rw [heq, holds_insert, if_pos rfl, hstore tbl tbl' hf]
    exact (tbl.isSome_version?_store entries).2 (Or.inl ⟨contents, hmem⟩)

/-- **A verb that succeeds leaves the versions it writes.** -/
theorem holds_run_of_writes {v : Verb α} {a : α} (hwrites : v.Writes table cell ts)
    (hok : (run v s).1 = .ok a) : (run v s).2.Holds table cell ts := by
  cases v with
  | put other values ts' =>
    obtain ⟨rfl, hcell, rfl⟩ := hwrites
    obtain ⟨contents, hget⟩ :=
      Option.isSome_iff_exists.1 (ExtTreeMap.mem_iff_isSome_getElem?.1 hcell)
    exact holds_update_of_mem hok (mem_entriesAt.2 ⟨hget, rfl⟩) fun _ _ => Table.eq_store_of_write
  | putWithTimestamps other entries =>
    obtain ⟨rfl, contents, hmem⟩ := hwrites
    exact holds_update_of_mem hok hmem fun _ _ => Table.eq_store_of_write
  | putUnlessExists other values =>
    obtain ⟨rfl, hcell, rfl⟩ := hwrites
    obtain ⟨contents, hget⟩ :=
      Option.isSome_iff_exists.1 (ExtTreeMap.mem_iff_isSome_getElem?.1 hcell)
    exact holds_update_of_mem hok (mem_entriesAt.2 ⟨hget, rfl⟩)
      fun _ _ hf => (Table.of_writeUnlessExists hf).1
  | addSentinels other cells =>
    obtain ⟨rfl, hcell, rfl⟩ := hwrites
    refine holds_update_of_mem hok (List.mem_map.2 ⟨cell, ExtTreeSet.mem_toList.2 hcell, rfl⟩)
      fun _ _ hf => (Except.ok.inj hf).symm
  | _ => exact hwrites.elim

/-- What holds after a change of a table held before it, unless the change has put it there. -/
theorem of_holds_update (h : (s.update table f).2.Holds table' cell ts)
    (hnew : ∀ tbl tbl', f tbl = .ok tbl' → table = table' →
      (tbl'.data.version? cell ts).isSome = true → (tbl.data.version? cell ts).isSome = true) :
    s.Holds table' cell ts := by
  rcases s.update_cases table f with ⟨e, heq⟩ | ⟨tbl, tbl', htbl, hf, heq⟩
  · rw [heq] at h
    exact h
  · rw [heq, holds_insert] at h
    split at h
    · rename_i hsame
      subst hsame
      exact holds_iff.2 ⟨tbl, htbl, hnew tbl tbl' hf rfl h⟩
    · exact h

/-- What holds after a batch has been stored held before it, or is of the batch. -/
theorem of_holds_update_store {entries : List (Cell × Value)}
    (h : (s.update table f).2.Holds table' cell ts)
    (hstore : ∀ tbl tbl', f tbl = .ok tbl' → tbl' = tbl.store entries) :
    s.Holds table' cell ts ∨ (table = table' ∧ ∃ contents, (cell, ⟨contents, ts⟩) ∈ entries) ∧
      ∃ a, (s.update table f).1 = .ok a := by
  rcases s.update_cases table f with ⟨e, heq⟩ | ⟨tbl, tbl', htbl, hf, heq⟩
  · rw [heq] at h
    exact Or.inl h
  · rw [heq, holds_insert] at h
    split at h
    · rename_i hsame
      subst hsame
      rw [hstore tbl tbl' hf, Table.isSome_version?_store] at h
      rcases h with hnew | hold
      · exact Or.inr ⟨⟨rfl, hnew⟩, (), congrArg Prod.fst heq⟩
      · exact Or.inl (holds_iff.2 ⟨tbl, htbl, hold⟩)
    · exact Or.inl h

/-- **Whatever holds after a verb held before it, or has been written by it.** -/
theorem of_holds_run {v : Verb α} (h : (run v s).2.Holds table cell ts) :
    s.Holds table cell ts ∨ v.Writes table cell ts ∧ ∃ a, (run v s).1 = .ok a := by
  have hmem : ∀ {values : ExtTreeMap Cell Bytes} {ts' : Timestamp},
      (∃ contents, (cell, (⟨contents, ts⟩ : Value)) ∈ entriesAt values ts') →
        cell ∈ values ∧ ts' = ts := by
    rintro values ts' ⟨contents, hentry⟩
    obtain ⟨hget, hts⟩ := mem_entriesAt.1 hentry
    exact ⟨ExtTreeMap.mem_iff_isSome_getElem?.2 (by rw [hget]; rfl), hts.symm⟩
  cases v with
  | put other values ts' =>
    refine (of_holds_update_store h fun _ _ => Table.eq_store_of_write).imp_right ?_
    exact fun ⟨⟨hsame, hentry⟩, hok⟩ => ⟨⟨hsame, hmem hentry⟩, hok⟩
  | putWithTimestamps other entries =>
    exact of_holds_update_store h fun _ _ => Table.eq_store_of_write
  | putUnlessExists other values =>
    refine (of_holds_update_store h fun _ _ hf => (Table.of_writeUnlessExists hf).1).imp_right ?_
    exact fun ⟨⟨hsame, hentry⟩, hok⟩ => ⟨⟨hsame, hmem hentry⟩, hok⟩
  | addSentinels other cells =>
    refine (of_holds_update_store h fun _ _ hf => (Except.ok.inj hf).symm).imp_right ?_
    rintro ⟨⟨hsame, contents, hentry⟩, hok⟩
    obtain ⟨c, hc, heq⟩ := List.mem_map.1 hentry
    cases heq
    exact ⟨⟨hsame, ExtTreeSet.mem_toList.1 hc, rfl⟩, hok⟩
  | delete other versions =>
    refine Or.inl (of_holds_update h fun tbl tbl' hf _ hv => ?_)
    rw [← Except.ok.inj hf] at hv
    exact ((Table.isSome_version?_removed _ _).1 hv).1
  | truncateTable other =>
    refine Or.inl (of_holds_update h fun tbl tbl' hf _ hv => ?_)
    rw [← Except.ok.inj hf, Memtable.version?_clear] at hv
    cases hv
  | putMetadata other metadata =>
    refine Or.inl (of_holds_update h fun tbl tbl' hf _ hv => ?_)
    rw [← Except.ok.inj hf] at hv
    exact hv
  | createTable other maxValueSize =>
    -- a table that is created has no versions
    obtain ⟨tbl, htbl, hv⟩ := holds_iff.1 h
    have htbl : (s.tables.insertIfNew other { maxValueSize })[table]? = some tbl := htbl
    rw [ExtTreeMap.getElem?_insertIfNew] at htbl
    split at htbl
    · obtain rfl := Option.some.inj htbl
      have hnone : Memtable.version? ({} : Memtable) cell ts = none := Memtable.version?_clear {}
      cases hnone.symm.trans (Option.eq_some_of_isSome hv)
    · exact Or.inl (holds_iff.2 ⟨tbl, htbl, hv⟩)
  | dropTable other =>
    obtain ⟨tbl, htbl, hv⟩ := holds_iff.1 h
    have htbl : (s.tables.erase other)[table]? = some tbl := htbl
    rw [ExtTreeMap.getElem?_erase] at htbl
    split at htbl
    · cases htbl
    · exact Or.inl (holds_iff.2 ⟨tbl, htbl, hv⟩)
  | teardown =>
    obtain ⟨tbl, htbl, -⟩ := holds_iff.1 h
    cases ExtTreeMap.getElem?_empty.symm.trans htbl
  -- the others leave the tables alone
  | getRows | get | getLatestTimestamps | getAllTimestamps | tableNames | getMetadata | allMetadata
  | compact | prepareFresh | close => exact Or.inl h

/-- **A delete that succeeds leaves nothing of what it deletes.** -/
theorem not_holds_run_of_deletes {v : Verb α} {a : α} (hdeletes : v.Deletes table cell ts)
    (hok : (run v s).1 = .ok a) : ¬ (run v s).2.Holds table cell ts := by
  cases v with
  | delete other versions =>
    obtain ⟨rfl, hmem⟩ := hdeletes
    intro h
    have h : (s.update other _).2.Holds other cell ts := h
    have hok : (s.update other _).1 = .ok a := hok
    rcases s.update_cases other _ with ⟨e, heq⟩ | ⟨tbl, tbl', -, hf, heq⟩
    · rw [heq] at hok
      cases hok
    · rw [heq, holds_insert, if_pos rfl, ← Except.ok.inj hf] at h
      exact ((Table.isSome_version?_removed _ _).1 h).2 hmem
  | _ => exact hdeletes.elim

/-- A request that gives one time for a cell is answered with what is visible at that time. -/
theorem getElem?_latestOf {tbl : Table} {cells : List (Cell × Timestamp)} (hmem : (cell, t) ∈ cells)
    (hone : ∀ t', (cell, t') ∈ cells → t' = t) :
    (latestOf tbl cells)[cell]? = tbl.data.latestBefore cell t := by
  -- whatever the answer has for the cell was found at the one time asked for
  have hfrom : ∀ v, (latestOf tbl cells)[cell]? = some v → tbl.data.latestBefore cell t = some v := by
    intro v hv
    obtain ⟨⟨c, t'⟩, hc, hentry⟩ := List.mem_filterMap.1 (mem_of_getElem?_mapOfList hv)
    obtain ⟨w, hw, heq⟩ := Option.map_eq_some_iff.1 hentry
    cases heq
    rw [← hone t' hc]
    exact hw
  cases hv : tbl.data.latestBefore cell t with
  | none =>
    cases hgot : (latestOf tbl cells)[cell]? with
    | none => rfl
    | some v => rw [hfrom v hgot] at hv; cases hv
  | some v =>
    have hin : cell ∈ latestOf tbl cells := by
      refine mem_mapOfList.2 (List.mem_map.2 ⟨(cell, v), ?_, rfl⟩)
      refine List.mem_filterMap.2 ⟨(cell, t), hmem, ?_⟩
      show (tbl.data.latestBefore cell t).map (cell, ·) = some (cell, v)
      rw [hv]
      rfl
    obtain ⟨w, hw⟩ := Option.isSome_iff_exists.1 (ExtTreeMap.mem_iff_isSome_getElem?.1 hin)
    rw [hw, ← hv, hfrom w hw]

/-- A request made of a map gives one time for each of its cells. -/
theorem getElem?_latestOf_toList {tbl : Table} {cells : ExtTreeMap Cell Timestamp}
    (hget : cells[cell]? = some t) :
    (latestOf tbl cells.toList)[cell]? = tbl.data.latestBefore cell t := by
  refine getElem?_latestOf (ExtTreeMap.mem_toList_iff_getElem?_eq_some.2 hget) fun t' ht' => ?_
  rw [ExtTreeMap.mem_toList_iff_getElem?_eq_some, hget] at ht'
  exact (Option.some.inj ht').symm

/-- A request for rows gives the same time for all of their cells. -/
theorem getElem?_latestOf_map {tbl : Table} {cells : List Cell} (hmem : cell ∈ cells) :
    (latestOf tbl (cells.map (·, t)))[cell]? = tbl.data.latestBefore cell t := by
  refine getElem?_latestOf (List.mem_map.2 ⟨cell, hmem, rfl⟩) fun t' ht' => ?_
  obtain ⟨_, -, heq⟩ := List.mem_map.1 ht'
  exact (Prod.mk.inj heq).2.symm

/-- A question about a table that is there is answered from it. -/
theorem of_query {β : Type} {g : Table → β} {b : β} (h : s.query table g = .ok b) :
    ∃ tbl, s.tables[table]? = some tbl ∧ b = g tbl := by
  unfold query at h
  cases htbl : s.tables[table]? with
  | none => rw [htbl] at h; cases h
  | some tbl => rw [htbl] at h; exact ⟨tbl, rfl, (Except.ok.inj h).symm⟩

/-- **A read of a cell finds nothing older than a version that is visible to it.** -/
theorem stamp?_of_holds {v : Verb α} {a : α} (hreads : v.ReadsAt table cell t) (hlt : ts < t)
    (h : s.Holds table cell ts) (hok : (run v s).1 = .ok a) :
    ∃ stamp, v.stamp? a cell = some stamp ∧ ts ≤ stamp := by
  obtain ⟨tbl, htbl, hv⟩ := holds_iff.1 h
  obtain ⟨w, hw, hle⟩ := Memtable.exists_latestBefore hv hlt
  cases v with
  | getRows other rows columns t' =>
    obtain ⟨rfl, hrow, hkeep, rfl⟩ := hreads
    obtain ⟨tbl', htbl', rfl⟩ := of_query hok
    obtain rfl := Option.some.inj (htbl.symm.trans htbl')
    have hcell : cell ∈ cellsOfRows tbl rows columns := by
      refine List.mem_flatMap.2 ⟨cell.row, hrow, Memtable.mem_rowCells_iff.2 ⟨?_, rfl, hkeep⟩⟩
      exact Memtable.mem_cells_of_version? hv
    refine ⟨w.timestamp, ?_, hle⟩
    show ((latestOf tbl ((cellsOfRows tbl rows columns).map (·, t')))[cell]?).map Value.timestamp =
      some w.timestamp
    rw [getElem?_latestOf_map hcell, hw]
    rfl
  | get other cells =>
    obtain ⟨rfl, hget⟩ := hreads
    obtain ⟨tbl', htbl', rfl⟩ := of_query hok
    obtain rfl := Option.some.inj (htbl.symm.trans htbl')
    refine ⟨w.timestamp, ?_, hle⟩
    show ((latestOf tbl cells.toList)[cell]?).map Value.timestamp = some w.timestamp
    rw [getElem?_latestOf_toList hget, hw]
    rfl
  | getLatestTimestamps other cells =>
    obtain ⟨rfl, hget⟩ := hreads
    obtain ⟨tbl', htbl', rfl⟩ := of_query hok
    obtain rfl := Option.some.inj (htbl.symm.trans htbl')
    refine ⟨w.timestamp, ?_, hle⟩
    show ((latestOf tbl cells.toList).map fun _ v => v.timestamp)[cell]? = some w.timestamp
    rw [ExtTreeMap.getElem?_map, getElem?_latestOf_toList hget, hw]
    rfl
  | _ => exact hreads.elim

/-- **A conditional write succeeds only where none of its cells has a version.** -/
theorem not_holds_of_run_putUnlessExists {values : ExtTreeMap Cell Bytes} {a : Unit}
    (hcell : cell ∈ values) (hok : (run (.putUnlessExists table values) s).1 = .ok a) :
    ¬ s.Holds table cell ts := by
  intro h
  obtain ⟨tbl, htbl, hv⟩ := holds_iff.1 h
  rcases s.update_cases table (·.writeUnlessExists (entriesAt values 0)) with
    ⟨e, heq⟩ | ⟨tbl', tbl'', htbl', hf, -⟩
  · have hfail : (s.update table (·.writeUnlessExists (entriesAt values 0))).1 = .ok a := hok
    rw [heq] at hfail
    cases hfail
  · obtain rfl := Option.some.inj (htbl.symm.trans htbl')
    obtain ⟨contents, hget⟩ :=
      Option.isSome_iff_exists.1 (ExtTreeMap.mem_iff_isSome_getElem?.1 hcell)
    have hentry : (cell, ⟨contents, 0⟩) ∈ entriesAt values 0 := mem_entriesAt.2 ⟨hget, rfl⟩
    have hnone := (Table.of_writeUnlessExists hf).2 _ hentry
    exact hnone (Memtable.contains_iff.2 ⟨ts, hv⟩)

end Store

end QuorumStore
