import QuorumStore.Proofs.Store.Reads

/-!
# Tables cut down to some rows

A shard of a table has the cells of some rows only. Changes of a table go key by key, so the keys of
these rows change the shard as all keys change the table.

* `Memtable.restrict`, `Table.restrict`: the shard with the given rows.
* `Memtable.restrict_put`, `Memtable.restrict_removeVersion`: a change of one cell.
* `Table.write_eq_ok_iff`, `Table.writeUnlessExists_eq_ok_iff`: when a batch is stored.
* `Table.Keywise`: **a change that goes key by key**; `Table.keywise_write` and others are the changes
  that the batches of a store make.
-/

namespace QuorumStore

open Std

variable {p : Bytes → Bool} {cell : Cell} {t ts : Timestamp}

/-- The entries of a map whose rows are kept. -/
theorem getElem?_filter_row {β : Type} (m : ExtTreeMap Cell β) (cell : Cell) :
    (m.filter fun cell _ => p cell.row)[cell]? = if p cell.row = true then m[cell]? else none := by
  rw [ExtTreeMap.getElem?_filter']
  cases m[cell]? with
  | none => simp
  | some x => rfl

/-- The cells of a set whose rows are kept. -/
theorem mem_filter_row {cells : ExtTreeSet Cell} :
    cell ∈ cells.filter (fun cell => p cell.row) ↔ cell ∈ cells ∧ p cell.row = true := by
  rw [← ExtTreeSet.mem_toList, ExtTreeSet.toList_filter, List.mem_filter, ExtTreeSet.mem_toList]

namespace Memtable

variable {m m' : Memtable}

/-- The cells in the rows that are kept. -/
def restrict (p : Bytes → Bool) (m : Memtable) : Memtable :=
  ⟨m.cells.filter fun cell _ => p cell.row⟩

theorem ext_cells (h : ∀ cell : Cell, m.cells[cell]? = m'.cells[cell]?) : m = m' := by
  cases m
  cases m'
  exact congrArg Memtable.mk (ExtTreeMap.ext_getElem? h)

theorem getElem?_restrict (m : Memtable) (cell : Cell) :
    (m.restrict p).cells[cell]? = if p cell.row = true then m.cells[cell]? else none :=
  getElem?_filter_row m.cells cell

theorem version?_restrict (m : Memtable) (cell : Cell) (ts : Timestamp) :
    (m.restrict p).version? cell ts = if p cell.row = true then m.version? cell ts else none := by
  unfold version?
  rw [getElem?_restrict]
  split <;> rfl

theorem contains_restrict (h : p cell.row = true) :
    (m.restrict p).contains cell = m.contains cell := by
  unfold contains
  rw [getElem?_restrict, if_pos h]

theorem latestBefore_restrict (m : Memtable) (cell : Cell) (t : Timestamp) :
    (m.restrict p).latestBefore cell t =
      if p cell.row = true then m.latestBefore cell t else none := by
  unfold latestBefore
  rw [getElem?_restrict]
  split <;> rfl

theorem timestampsBefore_restrict (h : p cell.row = true) :
    (m.restrict p).timestampsBefore cell t = m.timestampsBefore cell t := by
  unfold timestampsBefore
  rw [getElem?_restrict, if_pos h]

/-- A change of one cell that goes by what the cell holds is done in a shard if the shard has the
cell. -/
theorem restrict_of_local {f : Memtable → Memtable} {c : Cell}
    (hcell : ∀ m m' : Memtable, m.cells[c]? = m'.cells[c]? → (f m).cells[c]? = (f m').cells[c]?)
    (hothers : ∀ (m : Memtable) cell, c ≠ cell → (f m).cells[cell]? = m.cells[cell]?)
    (m : Memtable) :
    (f m).restrict p = if p c.row = true then f (m.restrict p) else m.restrict p := by
  refine ext_cells fun cell => ?_
  rw [getElem?_restrict]
  by_cases hc : c = cell
  · subst hc
    by_cases hp : p c.row = true
    · rw [if_pos hp, if_pos hp]
      exact hcell _ _ (by rw [getElem?_restrict, if_pos hp])
    · rw [if_neg hp, if_neg hp, getElem?_restrict, if_neg hp]
  · have hrest : (if p c.row = true then f (m.restrict p) else m.restrict p).cells[cell]? =
        (m.restrict p).cells[cell]? := by
      split
      · exact hothers _ _ hc
      · rfl
    rw [hrest, getElem?_restrict, hothers m cell hc]

theorem restrict_put (m : Memtable) (c : Cell) (ts : Timestamp) (contents : Bytes) :
    (m.put c ts contents).restrict p =
      if p c.row = true then (m.restrict p).put c ts contents else m.restrict p := by
  refine restrict_of_local (f := (·.put c ts contents)) (fun m m' h => ?_) (fun m cell hne => ?_) m
  · unfold put
    rw [ExtTreeMap.getElem?_insert, ExtTreeMap.getElem?_insert, ExtTreeMap.getD_eq_getD_getElem?,
      ExtTreeMap.getD_eq_getD_getElem?, h]
  · unfold put
    rw [ExtTreeMap.getElem?_insert, if_neg fun heq => hne (LawfulEqOrd.eq_of_compare heq)]

theorem restrict_removeVersion (m : Memtable) (c : Cell) (ts : Timestamp) :
    (m.removeVersion c ts).2.restrict p =
      if p c.row = true then ((m.restrict p).removeVersion c ts).2 else m.restrict p := by
  refine restrict_of_local (f := fun m => (m.removeVersion c ts).2) (fun m m' h => ?_)
    (fun m cell hne => ?_) m
  · unfold removeVersion
    rw [← h]
    cases hvs : m.cells[c]? with
    | none => rw [hvs, ← h, hvs]
    | some vs =>
      dsimp only
      split
      · rw [ExtTreeMap.getElem?_erase_self, ExtTreeMap.getElem?_erase_self]
      · rw [ExtTreeMap.getElem?_insert_self, ExtTreeMap.getElem?_insert_self]
  · have hcmp : ¬ compare c cell = .eq := fun heq => hne (LawfulEqOrd.eq_of_compare heq)
    unfold removeVersion
    cases m.cells[c]? with
    | none => rfl
    | some vs =>
      dsimp only
      split
      · rw [ExtTreeMap.getElem?_erase, if_neg hcmp]
      · rw [ExtTreeMap.getElem?_insert, if_neg hcmp]

/-- Changes of cells one after the other. -/
theorem restrict_foldl {κ : Type} {row : κ → Bytes} {f : Memtable → κ → Memtable}
    (hf : ∀ m key, (f m key).restrict p =
      if p (row key) = true then f (m.restrict p) key else m.restrict p)
    (keys : List κ) (m : Memtable) :
    (keys.foldl f m).restrict p = (keys.filter fun key => p (row key)).foldl f (m.restrict p) := by
  induction keys generalizing m with
  | nil => rfl
  | cons key keys ih =>
    rw [List.foldl_cons, ih, hf, List.filter_cons]
    split <;> rfl

end Memtable

namespace Table

/-- The table with the cells in the rows that are kept. -/
def restrict (p : Bytes → Bool) (t : Table) : Table := { t with data := t.data.restrict p }

theorem data_restrict (t : Table) : (t.restrict p).data = t.data.restrict p := rfl

/-- A table without versions is its own shard. -/
theorem restrict_of_empty {t : Table} (h : t.data = {}) : t.restrict p = t := by
  cases t
  cases h
  rfl

theorem restrict_store (t : Table) (entries : List (Cell × Value)) :
    (t.store entries).restrict p = (t.restrict p).store (entries.filter fun e => p e.1.row) := by
  unfold store restrict
  dsimp only
  rw [Memtable.restrict_foldl fun m e => m.restrict_put e.1 e.2.timestamp e.2.contents]

theorem forM_checkSize_eq_ok_iff {t : Table} {entries : List (Cell × Value)} :
    (entries.forM fun e => t.checkSize e.2.contents) = .ok () ↔
      ∀ e ∈ entries, e.2.contents.length ≤ t.maxValueSize := by
  induction entries with
  | nil => simp [pure, Except.pure]
  | cons e entries ih =>
    rw [List.forall_mem_cons, ← ih]
    show (t.checkSize e.2.contents >>= fun _ => entries.forM fun e => t.checkSize e.2.contents) = _ ↔
      _
    generalize entries.forM (fun e => t.checkSize e.2.contents) = rest
    unfold checkSize
    by_cases h : t.maxValueSize < e.2.contents.length
    · rw [if_pos h]
      constructor
      · intro hok
        cases hok
      · exact fun hfit => absurd h (Nat.not_lt.2 hfit.1)
    · rw [if_neg h]
      exact ⟨fun hok => ⟨Nat.not_lt.1 h, hok⟩, fun hfit => hfit.2⟩

/-- **A batch is stored** if each of its values fits. -/
theorem write_eq_ok_iff {t t' : Table} {entries : List (Cell × Value)} :
    t.write entries = .ok t' ↔
      (∀ e ∈ entries, e.2.contents.length ≤ t.maxValueSize) ∧ t' = t.store entries := by
  rw [← forM_checkSize_eq_ok_iff]
  constructor
  · intro h
    obtain ⟨_, hfit, -⟩ := exists_of_bind_eq_ok h
    exact ⟨hfit, eq_store_of_write h⟩
  · rintro ⟨hfit, rfl⟩
    unfold write
    rw [hfit]
    rfl

/-- **A conditional batch is stored** if moreover none of its cells has a version. -/
theorem writeUnlessExists_eq_ok_iff {t t' : Table} {entries : List (Cell × Value)} :
    t.writeUnlessExists entries = .ok t' ↔
      (∀ e ∈ entries, ¬ t.data.contains e.1 = true ∧ e.2.contents.length ≤ t.maxValueSize) ∧
        t' = t.store entries := by
  constructor
  · intro h
    obtain ⟨hstore, hnone⟩ := of_writeUnlessExists h
    unfold writeUnlessExists at h
    split at h
    · cases h
    · exact ⟨fun e he => ⟨hnone e he, (write_eq_ok_iff.1 h).1 e he⟩, hstore⟩
  · rintro ⟨hall, hstore⟩
    have hfind : (entries.find? fun e => t.data.contains e.1) = none :=
      List.find?_eq_none.2 fun e he => (hall e he).1
    unfold writeUnlessExists
    rw [hfind]
    exact write_eq_ok_iff.2 ⟨fun e he => (hall e he).2, hstore⟩

/-- A change of a table that goes key by key: a shard is changed by the keys of its rows, and the
change fails only because of some key. -/
structure Keywise {κ : Type} (row : κ → Bytes) (change : List κ → Table → Except Failure Table) :
    Prop where
  nil : ∀ t, change [] t = .ok t
  restrict : ∀ (p : Bytes → Bool) keys t t', change keys t = .ok t' →
    change (keys.filter fun key => p (row key)) (t.restrict p) = .ok (t'.restrict p)
  ok_of_each : ∀ keys t, (∀ key ∈ keys, ∃ p : Bytes → Bool, p (row key) = true ∧
    ∃ t', change (keys.filter fun key => p (row key)) (t.restrict p) = .ok t') →
    ∃ t', change keys t = .ok t'

theorem keywise_write : Keywise (fun e => e.1.row) fun entries t => t.write entries := by
  refine ⟨fun t => rfl, fun p keys t t' h => ?_, fun keys t h => ?_⟩
  · obtain ⟨hfit, rfl⟩ := write_eq_ok_iff.1 h
    exact write_eq_ok_iff.2 ⟨fun e he => hfit e (List.mem_filter.1 he).1, t.restrict_store keys⟩
  · refine ⟨_, write_eq_ok_iff.2 ⟨fun e he => ?_, rfl⟩⟩
    obtain ⟨p, hp, t', ht'⟩ := h e he
    exact (write_eq_ok_iff.1 ht').1 e (List.mem_filter.2 ⟨he, hp⟩)

theorem keywise_writeUnlessExists :
    Keywise (fun e => e.1.row) fun entries t => t.writeUnlessExists entries := by
  refine ⟨fun t => rfl, fun p keys t t' h => ?_, fun keys t h => ?_⟩
  · obtain ⟨hall, rfl⟩ := writeUnlessExists_eq_ok_iff.1 h
    refine writeUnlessExists_eq_ok_iff.2 ⟨fun e he => ?_, t.restrict_store keys⟩
    obtain ⟨he, hp⟩ := List.mem_filter.1 he
    refine ⟨?_, (hall e he).2⟩
    show ¬ (t.data.restrict p).contains e.1 = true
    rw [Memtable.contains_restrict hp]
    exact (hall e he).1
  · refine ⟨_, writeUnlessExists_eq_ok_iff.2 ⟨fun e he => ?_, rfl⟩⟩
    obtain ⟨p, hp, t', ht'⟩ := h e he
    obtain ⟨hnone, hfit⟩ :=
      (writeUnlessExists_eq_ok_iff.1 ht').1 e (List.mem_filter.2 ⟨he, hp⟩)
    refine ⟨?_, hfit⟩
    rw [← Memtable.contains_restrict hp]
    exact hnone

theorem keywise_store : Keywise (fun e => e.1.row) fun entries t => .ok (t.store entries) := by
  refine ⟨fun t => rfl, fun p keys t t' h => ?_, fun keys t _ => ⟨_, rfl⟩⟩
  cases h
  rw [restrict_store]

theorem keywise_remove : Keywise (fun v : Cell × Timestamp => v.1.row) fun versions t =>
    .ok { t with data := versions.foldl (fun m (cell, ts) => (m.removeVersion cell ts).2) t.data }
    := by
  refine ⟨fun t => rfl, fun p keys t t' h => ?_, fun keys t _ => ⟨_, rfl⟩⟩
  cases h
  unfold restrict
  dsimp only
  rw [Memtable.restrict_foldl fun m v => m.restrict_removeVersion v.1 v.2]

end Table

end QuorumStore
