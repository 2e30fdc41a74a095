import Mathlib.Data.List.Induction
import QuorumStore.Memtable
import QuorumStore.Proofs.Merge
import QuorumStore.Scan.Merged

/-!
# The merge of delivered rows

Several replicas deliver copies of rows. Their merge has one row for each key delivered, in key
order, and each of its columns joins what the copies have for that column.

* `Projection.Combines`: what one payload has to be to stand for several.
* `IsMerge`: rows are the merge of delivered copies, in these terms.
* `Joins`: the same with the join of a column written as a fold over the copies.
* `Joins.isMerge`: the fold combines the payloads of the copies.
* `Joins.exists_of`, `Joins.tail`: there is a merge, and it goes on after its first row.
-/

namespace QuorumStore

open Std

variable {τ : Type}

namespace Projection

/-- One payload stands for several: it is the greatest value, or has the members of every set. -/
def Combines : {τ : Type} → Projection τ → List τ → τ → Prop
  | _, latest, parts, v => v ∈ parts ∧ ∀ w ∈ parts, (compare w v).isLE = true
  | _, history, parts, s => ∀ v, v ∈ s ↔ ∃ part ∈ parts, v ∈ part
  | _, timestamps, parts, s => ∀ ts, ts ∈ s ↔ ∃ part ∈ parts, ts ∈ part

theorem combines_singleton (p : Projection τ) (x : τ) : p.Combines [x] x := by
  cases p with
  | latest => exact ⟨List.mem_singleton_self x, fun w hw => by simp [List.mem_singleton.1 hw]⟩
  | history => intro v; simp
  | timestamps => intro ts; simp

/-- Adding a payload to a combination. -/
theorem Combines.snoc {p : Projection τ} {parts : List τ} {x y : τ} (h : p.Combines parts x) :
    p.Combines (parts ++ [y]) (p.merge x y) := by
  cases p with
  | latest =>
    obtain ⟨hmem, hle⟩ := h
    change latest.Combines (parts ++ [y]) (Value.newer x y)
    unfold Value.newer
    by_cases hlt : (compare x y).isLT = true
    · rw [if_pos hlt]
      refine ⟨by simp, fun w hw => ?_⟩
      rcases List.mem_append.1 hw with hw | hw
      · exact TransCmp.isLE_trans (hle w hw) (Ordering.isLE_of_eq_lt (Ordering.isLT_iff_eq_lt.1 hlt))
      · simp [List.mem_singleton.1 hw]
    · rw [if_neg hlt]
      refine ⟨List.mem_append_left _ hmem, fun w hw => ?_⟩
      rcases List.mem_append.1 hw with hw | hw
      · exact hle w hw
      · -- the other order of the comparison
        have hswap : compare w x = (compare x w).swap := OrientedCmp.eq_swap
        rw [hswap]
        rw [List.mem_singleton.1 hw]
        cases hcmp : compare x y <;> simp_all
  | history =>
    intro v
    have hv := h v
    simp only [Projection.merge, ExtTreeSet.mem_union_iff, hv, List.mem_append, List.mem_singleton]
    grind
  | timestamps =>
    intro ts
    have hts := h ts
    simp only [Projection.merge, ExtTreeSet.mem_union_iff, hts, List.mem_append, List.mem_singleton]
    grind

end Projection

/-- The copies of a row among all that was delivered. -/
def copiesOf (delivered : List (Row τ)) (key : Bytes) : List (Row τ) :=
  delivered.filter fun copy => copy.key = key

/-- **The exact merge** of what replicas delivered: strictly ascending rows, one for each key that
was delivered, with the columns that some copy has, each with the combination of its copies. -/
structure IsMerge (projection : Projection τ) (delivered rows : List (Row τ)) : Prop where
  /-- The rows are in strictly ascending key order. -/
  ascending : rows.Pairwise fun a b => a.key < b.key
  /-- Their keys are those delivered. -/
  keys : ∀ key, key ∈ rows.map Row.key ↔ key ∈ delivered.map Row.key
  /-- Their columns are those of the copies. -/
  columns : ∀ row ∈ rows, ∀ column,
    (row.get? column).isSome ↔ ∃ copy ∈ copiesOf delivered row.key, (copy.get? column).isSome
  /-- Their payloads combine those of the copies. -/
  payloads : ∀ row ∈ rows, ∀ column payload, row.get? column = some payload →
    projection.Combines ((copiesOf delivered row.key).filterMap (·.get? column)) payload

/-- The join of what copies of a row have for a column, in their order. -/
def joinColumn (merge : τ → τ → τ) (copies : List (Row τ)) (column : Bytes) : Option τ :=
  copies.foldl (fun acc copy => Option.merge merge acc (copy.get? column)) none

/-- Rows whose columns join those of the copies delivered. -/
structure Joins (merge : τ → τ → τ) (delivered rows : List (Row τ)) : Prop where
  ascending : rows.Pairwise fun a b => a.key < b.key
  keys : ∀ key, key ∈ rows.map Row.key ↔ key ∈ delivered.map Row.key
  columns : ∀ row ∈ rows, ∀ column,
    row.get? column = joinColumn merge (copiesOf delivered row.key) column

section JoinColumn

variable {merge : τ → τ → τ}

theorem joinColumn_snoc (copies : List (Row τ)) (copy : Row τ) (column : Bytes) :
    joinColumn merge (copies ++ [copy]) column =
      Option.merge merge (joinColumn merge copies column) (copy.get? column) := by
  unfold joinColumn
  rw [List.foldl_append]
  rfl

/-- The fold over the copies finds nothing if no copy has the column, and else a combination. -/
theorem joinColumn_cases (p : Projection τ) (copies : List (Row τ)) (column : Bytes) :
    (joinColumn p.merge copies column = none ∧ copies.filterMap (·.get? column) = []) ∨
      ∃ x, joinColumn p.merge copies column = some x ∧
        copies.filterMap (·.get? column) ≠ [] ∧
        p.Combines (copies.filterMap (·.get? column)) x := by
  induction copies using List.reverseRecOn with
  | nil => exact Or.inl ⟨rfl, rfl⟩
  | append_singleton copies copy ih =>
    rw [joinColumn_snoc, List.filterMap_append]
    cases hcopy : copy.get? column with
    | none =>
      have hnone : List.filterMap (·.get? column) [copy] = [] := by simp [hcopy]
      rw [hnone, List.append_nil, Option.merge_none_right]
      exact ih
    | some y =>
      have hsome : List.filterMap (·.get? column) [copy] = [y] := by simp [hcopy]
      rw [hsome]
      refine Or.inr ?_
      rcases ih with ⟨hjoin, hempty⟩ | ⟨x, hjoin, -, hcombines⟩
      · rw [hjoin, hempty]
        exact ⟨y, rfl, by simp, p.combines_singleton y⟩
      · rw [hjoin]
        exact ⟨p.merge x y, rfl, by simp, hcombines.snoc⟩

theorem getElem?_joinColumns (acc part : ExtTreeMap Bytes τ) (column : Bytes) :
    (MergedScan.joinColumns merge acc part)[column]? =
      Option.merge merge acc[column]? part[column]? :=
  Merge.getElem?_joinWith merge acc part column

end JoinColumn

namespace Joins

variable {merge : τ → τ → τ} {delivered rows : List (Row τ)} {row : Row τ}

/-- **The fold over the copies is the exact merge.** -/
theorem isMerge {p : Projection τ} (h : Joins p.merge delivered rows) :
    IsMerge p delivered rows where
  ascending := h.ascending
  keys := h.keys
  columns row hrow column := by
    rw [h.columns row hrow column]
    rcases joinColumn_cases p (copiesOf delivered row.key) column with
      ⟨hjoin, hempty⟩ | ⟨x, hjoin, hsome, -⟩
    · rw [hjoin]
      rw [List.filterMap_eq_nil_iff] at hempty
      simp only [Option.isSome_none, Bool.false_eq_true, false_iff, not_exists, not_and]
      intro copy hcopy
      simp [hempty copy hcopy]
    · rw [hjoin]
      obtain ⟨y, hy⟩ := List.exists_mem_of_ne_nil _ hsome
      obtain ⟨copy, hcopy, hget⟩ := List.mem_filterMap.1 hy
      exact ⟨fun _ => ⟨copy, hcopy, by simp [hget]⟩, fun _ => rfl⟩
  payloads row hrow column payload hget := by
    rw [h.columns row hrow column] at hget
    rcases joinColumn_cases p (copiesOf delivered row.key) column with
      ⟨hjoin, -⟩ | ⟨x, hjoin, -, hcombines⟩
    · rw [hjoin] at hget
      cases hget
    · rw [hjoin] at hget
      cases hget
      exact hcombines

theorem eq_nil_of_nil (h : Joins merge delivered []) : delivered = [] := by
  cases delivered with
  | nil => rfl
  | cons copy delivered =>
    have hmem := (h.keys copy.key).2 (by simp)
    cases hmem

theorem key_mem (h : Joins merge delivered (row :: rows)) : row.key ∈ delivered.map Row.key :=
  (h.keys row.key).1 (by simp)

/-- The first row has the least key. -/
theorem key_le (h : Joins merge delivered (row :: rows)) {copy : Row τ} (hcopy : copy ∈ delivered) :
    row.key ≤ copy.key := by
  have hmem := (h.keys copy.key).2 (List.mem_map_of_mem hcopy)
  rw [List.map_cons, List.mem_cons] at hmem
  rcases hmem with heq | hmem
  · rw [heq]
    exact List.le_refl _
  · obtain ⟨other, hother, heq⟩ := List.mem_map.1 hmem
    rw [← heq]
    exact List.le_of_lt ((List.pairwise_cons.1 h.ascending).1 other hother)

/-- **After its first row** a merge goes on with the merge of the copies of the other rows. -/
theorem tail (h : Joins merge delivered (row :: rows)) :
    Joins merge (delivered.filter fun copy => copy.key ≠ row.key) rows := by
  obtain ⟨hfirst, hrest⟩ := List.pairwise_cons.1 h.ascending
  have hne : ∀ other ∈ rows, other.key ≠ row.key := by
    intro other hother heq
    have hlt := hfirst other hother
    rw [heq] at hlt
    exact List.lt_irrefl _ hlt
  refine ⟨hrest, fun key => ?_, fun other hother column => ?_⟩
  · have hkeys := h.keys key
    rw [List.map_cons, List.mem_cons] at hkeys
    constructor
    · intro hmem
      obtain ⟨copy, hcopy, rfl⟩ := List.mem_map.1 (hkeys.1 (Or.inr hmem))
      obtain ⟨other, hother, heq⟩ := List.mem_map.1 hmem
      refine List.mem_map_of_mem (List.mem_filter.2 ⟨hcopy, ?_⟩)
      rw [← heq]
      exact decide_eq_true (hne other hother)
    · intro hmem
      obtain ⟨copy, hcopy, rfl⟩ := List.mem_map.1 hmem
      obtain ⟨hcopy, hother⟩ := List.mem_filter.1 hcopy
      rcases hkeys.2 (List.mem_map_of_mem hcopy) with heq | hrow
      · exact absurd heq (of_decide_eq_true hother)
      · exact hrow
  · rw [h.columns other (List.mem_cons_of_mem _ hother) column]
    congr 1
    unfold copiesOf
    rw [List.filter_filter]
    refine List.filter_congr fun copy _ => ?_
    by_cases heq : copy.key = other.key
    · simp [heq, hne other hother]
    · simp [heq]

end Joins

section Existence

variable (merge : τ → τ → τ)

/-- The columns of every row delivered. -/
def gatherCopies (delivered : List (Row τ)) : ExtTreeMap Bytes (ExtTreeMap Bytes τ) :=
  delivered.foldl
    (fun acc copy => Merge.joinEntry (MergedScan.joinColumns merge) acc copy.key copy.columns) ∅

theorem gatherCopies_snoc (delivered : List (Row τ)) (copy : Row τ) (key : Bytes) :
    (gatherCopies merge (delivered ++ [copy]))[key]? =
      if copy.key = key then
        Option.merge (MergedScan.joinColumns merge) (gatherCopies merge delivered)[key]?
          (some copy.columns)
      else (gatherCopies merge delivered)[key]? := by
  unfold gatherCopies
  rw [List.foldl_append, List.foldl_cons, List.foldl_nil, Merge.getElem?_joinEntry]
  simp only [LawfulEqOrd.compare_eq_iff_eq]

/-- A row is gathered if it was delivered, with the joins of its columns. -/
theorem getElem?_gatherCopies (delivered : List (Row τ)) (key : Bytes) :
    ((gatherCopies merge delivered)[key]?.isSome ↔ key ∈ delivered.map Row.key) ∧
      ∀ column, (gatherCopies merge delivered)[key]?.bind (·[column]?) =
        joinColumn merge (copiesOf delivered key) column := by
  induction delivered using List.reverseRecOn with
  | nil => simp [gatherCopies, joinColumn, copiesOf]
  | append_singleton delivered copy ih =>
    obtain ⟨ihkey, ihcolumn⟩ := ih
    rw [gatherCopies_snoc]
    unfold copiesOf at ihcolumn ⊢
    rw [List.filter_append]
    by_cases hkey : copy.key = key
    · have hcopy : List.filter (fun copy => decide (copy.key = key)) [copy] = [copy] := by
        simp [hkey]
      rw [if_pos hkey, hcopy]
      refine ⟨?_, fun column => ?_⟩
      · cases (gatherCopies merge delivered)[key]? <;> simp [hkey]
      · rw [joinColumn_snoc, ← ihcolumn]
        cases (gatherCopies merge delivered)[key]? with
        | none => simp [Row.get?]
        | some columns => exact getElem?_joinColumns columns copy.columns column
    · have hcopy : List.filter (fun copy => decide (copy.key = key)) [copy] = [] := by
        simp [hkey]
      rw [if_neg hkey, hcopy, List.append_nil]
      refine ⟨?_, ihcolumn⟩
      rw [ihkey, List.map_append, List.mem_append]
      simp [Ne.symm hkey]

/-- **There is a merge** of whatever is delivered. -/
theorem Joins.exists_of (delivered : List (Row τ)) : ∃ rows, Joins merge delivered rows := by
  refine ⟨(gatherCopies merge delivered).toList.map fun e => ⟨e.1, e.2⟩, ?_, ?_, ?_⟩
  · rw [List.pairwise_map]
    exact ExtTreeMap.ordered_keys_toList.imp fun h => (Bytes.compare_eq_lt_iff _ _).1 h
  · intro key
    rw [← (getElem?_gatherCopies merge delivered key).1, ← ExtTreeMap.mem_iff_isSome_getElem?,
      ← ExtTreeMap.mem_keys, ← ExtTreeMap.map_fst_toList_eq_keys, List.map_map]
    rfl
  · intro row hrow column
    obtain ⟨⟨key, columns⟩, hmem, rfl⟩ := List.mem_map.1 hrow
    rw [← (getElem?_gatherCopies merge delivered key).2 column,
      ExtTreeMap.mem_toList_iff_getElem?_eq_some.1 hmem]
    rfl

theorem Joins.exists_each (sent : List (List (List (Row τ)))) :
    ∃ merged, List.Forall₂ (fun parts rows => Joins merge parts.flatten rows) sent merged := by
  induction sent with
  | nil => exact ⟨[], .nil⟩
  | cons parts sent ih =>
    obtain ⟨merged, hmerged⟩ := ih
    obtain ⟨rows, hrows⟩ := Joins.exists_of merge parts.flatten
    exact ⟨rows :: merged, .cons hrows hmerged⟩

end Existence

section Ascending

variable {row : Row τ} {rest : List (Row τ)} {key : Bytes}

/-- An ascending sequence has at most its first row of the least key. -/
theorem copiesOf_cons (hsorted : (row :: rest).Pairwise fun a b => a.key < b.key)
    (hleast : key ≤ row.key) :
    (row.key = key → copiesOf (row :: rest) key = [row] ∧
      (row :: rest).filter (fun copy => copy.key ≠ key) = rest) ∧
    (row.key ≠ key → copiesOf (row :: rest) key = [] ∧
      (row :: rest).filter (fun copy => copy.key ≠ key) = row :: rest) := by
  obtain ⟨hfirst, -⟩ := List.pairwise_cons.1 hsorted
  have hrest : ∀ copy ∈ rest, copy.key ≠ key := by
    intro copy hcopy heq
    have hlt := List.lt_of_le_of_lt hleast (hfirst copy hcopy)
    rw [heq] at hlt
    exact List.lt_irrefl _ hlt
  have hnone : copiesOf rest key = [] := List.filter_eq_nil_iff.2 (by simpa using hrest)
  have hall : rest.filter (fun copy => copy.key ≠ key) = rest :=
    List.filter_eq_self.2 (by simpa using hrest)
  unfold copiesOf at hnone ⊢
  constructor
  · intro heq
    simp [heq, hnone]
    simpa using hall
  · intro hne
    simp [hne, hnone]
    simpa using hall

end Ascending

end QuorumStore
