import Mathlib.Data.List.Forall2
import QuorumStore.Proofs.Scan.MergedRows

/-!
# Rows that tabulate a function

A list of rows in key order says of each key and column which payload is there, if any. Rows
tabulate the function that says the same: they have a row for every key with some payload, and
leave out the others. A function has one table only.

* `Tabulates`: rows and the function they tabulate.
* `Tabulates.related`, `Tabulates.unique`: tables of related functions, and of one function.
* `Joins.tabulates`: merged tables tabulate the join of their functions, key and column wise.
* `Tabulates.flatten`: tables of disjoint ranges in order, one behind the other.
-/

namespace QuorumStore

open Std

variable {τ : Type}

/-- Rows of one key that have the same columns, with related payloads. -/
structure Row.Related {σ : Type} (R : τ → σ → Prop) (a : Row τ) (b : Row σ) : Prop where
  key : a.key = b.key
  columns : ∀ column, Option.Rel R (a.get? column) (b.get? column)

theorem Row.Related.eq {a b : Row τ} (h : a.Related (· = ·) b) : a = b := by
  have hcolumns : a.columns = b.columns := by
    refine ExtTreeMap.ext_getElem? fun column => ?_
    have hcolumn := h.columns column
    unfold get? at hcolumn
    generalize a.columns[column]? = x, b.columns[column]? = y at hcolumn
    cases hcolumn with
    | none => rfl
    | some heq => exact congrArg some heq
  obtain ⟨_, _⟩ := a
  obtain ⟨_, _⟩ := b
  exact congr (congrArg Row.mk h.key) hcolumns

/-- The rows are what the function says of keys and columns. -/
structure Tabulates (f : Bytes → Bytes → Option τ) (rows : List (Row τ)) : Prop where
  /-- The rows are in strictly ascending key order. -/
  ascending : rows.Pairwise fun a b => a.key < b.key
  /-- There is a row for each key with some payload. -/
  keys : ∀ key, key ∈ rows.map Row.key ↔ ∃ column, (f key column).isSome
  /-- A row has the payloads of its key. -/
  columns : ∀ row ∈ rows, ∀ column, row.get? column = f row.key column

/-- In ascending rows a key has one copy, or none. -/
theorem copiesOf_ascending {rows : List (Row τ)} (h : rows.Pairwise fun a b => a.key < b.key)
    (key : Bytes) :
    (copiesOf rows key = [] ∧ key ∉ rows.map Row.key) ∨
      ∃ row ∈ rows, row.key = key ∧ copiesOf rows key = [row] := by
  induction rows with
  | nil => exact Or.inl ⟨rfl, List.not_mem_nil⟩
  | cons row rest ih =>
    obtain ⟨hfirst, hrest⟩ := List.pairwise_cons.1 h
    by_cases hkey : row.key = key
    · refine Or.inr ⟨row, List.mem_cons_self, hkey, ?_⟩
      subst hkey
      exact ((copiesOf_cons h (List.le_refl _)).1 rfl).1
    · have hcopies : copiesOf (row :: rest) key = copiesOf rest key := by
        unfold copiesOf
        rw [List.filter_cons_of_neg (by simpa using hkey)]
      rw [hcopies]
      rcases ih hrest with ⟨hnone, hnot⟩ | ⟨other, hother, heq, hone⟩
      · refine Or.inl ⟨hnone, ?_⟩
        rw [List.map_cons, List.mem_cons, not_or]
        exact ⟨Ne.symm hkey, hnot⟩
      · exact Or.inr ⟨other, List.mem_cons_of_mem _ hother, heq, hone⟩

namespace Tabulates

variable {f g : Bytes → Bytes → Option τ} {rows rows' : List (Row τ)}

theorem congr (h : Tabulates f rows) (hfg : ∀ key column, f key column = g key column) :
    Tabulates g rows := by
  have heq : f = g := by
    funext key column
    exact hfg key column
  rw [← heq]
  exact h

theorem nodup (h : Tabulates f rows) : (rows.map Row.key).Nodup := by
  refine List.Pairwise.imp ?_ (List.pairwise_map.2 h.ascending)
  rintro a b hab rfl
  exact List.lt_irrefl _ hab

theorem eq_none_of_not_mem (h : Tabulates f rows) {key : Bytes} (hkey : key ∉ rows.map Row.key)
    (column : Bytes) : f key column = none := by
  rw [h.keys, not_exists] at hkey
  exact Option.not_isSome_iff_eq_none.1 (hkey column)

/-- Tables of functions that say something of the same keys have the same keys. -/
theorem map_key_eq {σ : Type} {g : Bytes → Bytes → Option σ} {rows' : List (Row σ)}
    (h : Tabulates f rows) (h' : Tabulates g rows')
    (hsome : ∀ key column, (f key column).isSome = (g key column).isSome) :
    rows.map Row.key = rows'.map Row.key := by
  have hlt : ∀ a b : Bytes, a ∈ rows.map Row.key → b ∈ rows'.map Row.key → a < b → b < a → a = b :=
    fun a b _ _ hab hba => absurd (List.lt_trans hab hba) (List.lt_irrefl a)
  have hascending := List.pairwise_map.2 h.ascending
  refine List.Perm.eq_of_pairwise hlt hascending (List.pairwise_map.2 h'.ascending) ?_
  refine (List.perm_ext_iff_of_nodup h.nodup h'.nodup).2 fun key => ?_
  rw [h.keys, h'.keys]
  simp only [hsome]

/-- **Tables of related functions** have the same rows and columns, with related payloads. -/
theorem related {σ : Type} {R : τ → σ → Prop} {g : Bytes → Bytes → Option σ} {rows' : List (Row σ)}
    (h : Tabulates f rows) (h' : Tabulates g rows')
    (hrel : ∀ key column, Option.Rel R (f key column) (g key column)) :
    List.Forall₂ (Row.Related R) rows rows' := by
  have hkeys : rows.map Row.key = rows'.map Row.key := by
    refine h.map_key_eq h' fun key column => ?_
    have hboth := hrel key column
    generalize f key column = x, g key column = y at hboth
    cases hboth <;> rfl
  refine List.forall₂_iff_get.2 ⟨by simpa using congrArg List.length hkeys, fun i hi hi' => ?_⟩
  have hkey : rows[i].key = rows'[i].key := by
    have hget := congrArg (·[i]?) hkeys
    simpa [hi, hi'] using hget
  refine ⟨hkey, fun column => ?_⟩
  have hrow := h.columns rows[i] (List.getElem_mem hi) column
  have hrow' := h'.columns rows'[i] (List.getElem_mem hi') column
  rw [← hkey] at hrow'
  rw [List.get_eq_getElem, List.get_eq_getElem, hrow, hrow']
  exact hrel rows[i].key column

/-- **A function has one table.** -/
theorem unique (h : Tabulates f rows) (h' : Tabulates f rows') : rows = rows' := by
  have hrelated : List.Forall₂ (Row.Related (· = ·)) rows rows' := by
    refine h.related h' fun key column => ?_
    cases f key column with
    | none => exact .none
    | some payload => exact .some rfl
  rw [← List.forall₂_eq_eq_eq]
  exact hrelated.imp fun _ _ => Row.Related.eq

/-- What the copies of a key in a table come to is what the function says. -/
theorem foldl_copiesOf (h : Tabulates f rows) (merge : τ → τ → τ) (key column : Bytes)
    (acc : Option τ) :
    (copiesOf rows key).foldl
      (fun acc copy => Option.merge merge acc (copy.get? column)) acc =
      Option.merge merge acc (f key column) := by
  rcases copiesOf_ascending h.ascending key with ⟨hnone, hnot⟩ | ⟨row, hrow, rfl, hone⟩
  · rw [hnone, h.eq_none_of_not_mem hnot, Option.merge_none_right]
    rfl
  · rw [hone, ← h.columns row hrow column]
    rfl

/-- A table behind another tabulates what either says. -/
theorem append (h : Tabulates f rows) (h' : Tabulates g rows')
    (hbefore : ∀ a ∈ rows, ∀ b ∈ rows', a.key < b.key) :
    Tabulates (fun key column => (f key column).or (g key column)) (rows ++ rows') := by
  refine ⟨List.pairwise_append.2 ⟨h.ascending, h'.ascending, hbefore⟩, fun key => ?_, ?_⟩
  · rw [List.map_append, List.mem_append, h.keys, h'.keys, ← exists_or]
    simp only [Option.isSome_or, Bool.or_eq_true]
  · intro row hrow column
    rcases List.mem_append.1 hrow with hrow | hrow
    · have hnot : row.key ∉ rows'.map Row.key := by
        intro hmem
        obtain ⟨other, hother, heq⟩ := List.mem_map.1 hmem
        exact List.lt_irrefl _ (heq ▸ hbefore row hrow other hother)
      rw [h.columns row hrow column, h'.eq_none_of_not_mem hnot, Option.or_none]
    · have hnot : row.key ∉ rows.map Row.key := by
        intro hmem
        obtain ⟨other, hother, heq⟩ := List.mem_map.1 hmem
        exact List.lt_irrefl _ (heq ▸ hbefore other hother row hrow)
      rw [h'.columns row hrow column, h.eq_none_of_not_mem hnot, Option.none_or]

end Tabulates

/-- The join of what several functions say. -/
def joinAt (merge : τ → τ → τ) (fs : List (Bytes → Bytes → Option τ)) (key column : Bytes) :
    Option τ :=
  fs.foldl (fun acc f => Option.merge merge acc (f key column)) none

theorem isSome_foldl_merge {ι : Type} (merge : τ → τ → τ) (f : ι → Option τ) (l : List ι)
    (acc : Option τ) :
    (l.foldl (fun acc i => Option.merge merge acc (f i)) acc).isSome ↔
      acc.isSome ∨ ∃ i ∈ l, (f i).isSome := by
  induction l generalizing acc with
  | nil => simp
  | cons i l ih =>
    rw [List.foldl_cons, ih]
    cases acc <;> cases hi : f i <;> simp [hi]

/-- **Merged tables** tabulate the join of their functions. -/
theorem Joins.tabulates {merge : τ → τ → τ} {fs : List (Bytes → Bytes → Option τ)}
    {parts : List (List (Row τ))} {rows : List (Row τ)} (hparts : List.Forall₂ Tabulates fs parts)
    (h : Joins merge parts.flatten rows) : Tabulates (joinAt merge fs) rows := by
  refine ⟨h.ascending, fun key => ?_, fun row hrow column => ?_⟩
  · rw [h.keys]
    unfold joinAt
    simp only [isSome_foldl_merge, Option.isSome_none, Bool.false_eq_true, false_or]
    clear h
    induction hparts with
    | nil => simp
    | @cons f part fs parts hpart _ ih =>
      rw [List.flatten_cons, List.map_append, List.mem_append, ih, hpart.keys]
      simp only [List.mem_cons, exists_eq_or_imp, exists_or]
  · rw [h.columns row hrow column]
    unfold joinColumn joinAt
    generalize (none : Option τ) = acc
    clear h hrow
    induction hparts generalizing acc with
    | nil => rfl
    | @cons f part fs parts hpart _ ih =>
      have hflat : copiesOf (part :: parts).flatten row.key =
          copiesOf part row.key ++ copiesOf parts.flatten row.key := by
        unfold copiesOf
        rw [List.flatten_cons, List.filter_append]
      rw [hflat, List.foldl_append, hpart.foldl_copiesOf, ih]
      rfl

/-- What a function says of the rows of a range. -/
def within (range : RowRange) (f : Bytes → Bytes → Option τ) (key column : Bytes) : Option τ :=
  if range.contains key = true then f key column else none

theorem contains_of_within {range : RowRange} {f : Bytes → Bytes → Option τ}
    {rows : List (Row τ)} (h : Tabulates (within range f) rows) {row : Row τ} (hrow : row ∈ rows) :
    range.contains row.key = true := by
  obtain ⟨column, hsome⟩ := (h.keys row.key).1 (List.mem_map_of_mem hrow)
  unfold within at hsome
  split at hsome
  · assumption
  · cases hsome

/-- **Tables of ranges in order** one behind the other make a table of all of them. -/
theorem Tabulates.flatten {f : Bytes → Bytes → Option τ} {ranges : List RowRange}
    {parts : List (List (Row τ))}
    (h : List.Forall₂ (fun range rows => Tabulates (within range f) rows) ranges parts)
    (hbefore : ranges.Pairwise fun a b =>
      ∀ row row', a.contains row = true → b.contains row' = true → row < row') :
    Tabulates
      (fun key column => if ranges.any (·.contains key) = true then f key column else none)
      parts.flatten := by
  induction h with
  | nil => exact ⟨.nil, by simp, by simp⟩
  | @cons range rows ranges parts hrange _ ih =>
    obtain ⟨hfirst, hrest⟩ := List.pairwise_cons.1 hbefore
    have hparts := ih hrest
    refine (hrange.append hparts fun a ha b hb => ?_).congr fun key column => ?_
    · -- a row behind lies in one of the ranges behind
      obtain ⟨column, hsome⟩ := (hparts.keys b.key).1 (List.mem_map_of_mem hb)
      split at hsome
      · rename_i hany
        obtain ⟨other, hother, hcontains⟩ := List.any_eq_true.1 hany
        exact hfirst other hother _ _ (contains_of_within hrange ha) hcontains
      · cases hsome
    · unfold within
      rw [List.any_cons]
      by_cases hin : range.contains key = true
      · simp only [hin, if_true, Bool.true_or]
        cases hf : f key column <;> simp
      · simp [hin]

end QuorumStore
