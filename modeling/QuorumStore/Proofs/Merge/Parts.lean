import Mathlib.Order.Bounds.Defs
import QuorumStore.Proofs.Merge

/-!
# A merge depends only on the set of its parts

Replicas answer in any order and some answer twice; what is merged from their answers must not show
it. A merge is determined by its keys and by the entry it has for each of them, and both are said
of the set of the parts alone, without their order or number.

* `Merge.Collects`: a map has the keys of all parts, and for each the entry that comes from what
  the parts have for it.
* `Merge.Collects.unique`: there is one such map for a set of parts.
* `Merge.collects_latestValues`, `Merge.collects_latestTimestamps`, `Merge.collects_allTimestamps`:
  the merges of the point reads are such maps.
* `Merge.merges_of_same_parts`: **the same parts, in any order and with any repetitions, merge into
  the same map.**
-/

namespace QuorumStore

open Std

/-- Of two values the lesser has the earlier timestamp, or the lesser contents at the same one. -/
theorem Value.isLE_compare_iff (w v : Value) :
    (compare w v).isLE = true ↔
      w.timestamp < v.timestamp ∨ w.timestamp = v.timestamp ∧ w.contents ≤ v.contents := by
  have hcontents : (compare w.contents v.contents).isLE = true ↔ w.contents ≤ v.contents := by
    rw [← OrientedCmp.isGE_iff_isLE, ← List.not_lt, ← Bytes.compare_eq_lt_iff]
    cases compare v.contents w.contents <;> decide
  rw [Value.compare_def, Ordering.isLE_then_iff_or, compare_eq_lt,
    LawfulEqOrd.compare_eq_iff_eq, hcontents]

namespace Merge

section Collects

variable {κ α : Type} [Ord κ] [TransOrd κ]

/-- What any of the parts has for a key. -/
def entriesOf (parts : List (ExtTreeMap κ α)) (k : κ) : Set α := {x | ∃ p ∈ parts, p[k]? = some x}

/-- `m` has the keys of all parts, and its entry for a key `comes` from what the parts have for
that key. -/
structure Collects (comes : Set α → α → Prop) (parts : List (ExtTreeMap κ α))
    (m : ExtTreeMap κ α) : Prop where
  /-- The keys are those of the parts. -/
  mem_iff : ∀ k : κ, k ∈ m ↔ ∃ p ∈ parts, k ∈ p
  /-- The entry of a key comes from the entries that the parts have for it. -/
  entry : ∀ (k : κ) (x : α), m[k]? = some x → comes (entriesOf parts k) x

variable [LawfulEqOrd κ] {parts parts' : List (ExtTreeMap κ α)} {m m' : ExtTreeMap κ α}

/-- **A set of parts comes to one map**, where a set of entries comes to one entry. -/
theorem Collects.unique {comes : Set α → α → Prop} (h : Collects comes parts m)
    (h' : Collects comes parts' m') (hcomes : ∀ s x y, comes s x → comes s y → x = y)
    (hsame : ∀ p, p ∈ parts ↔ p ∈ parts') : m = m' := by
  have hentries : ∀ k, entriesOf parts k = entriesOf parts' k := by
    intro k
    simp only [entriesOf, hsame]
  have hkeys : ∀ k : κ, k ∈ m ↔ k ∈ m' := by
    intro k
    rw [h.mem_iff, h'.mem_iff]
    simp only [hsame]
  refine ExtTreeMap.ext_getElem? fun k => ?_
  have hk := hkeys k
  rw [ExtTreeMap.mem_iff_isSome_getElem?, ExtTreeMap.mem_iff_isSome_getElem?] at hk
  cases hx : m[k]? with
  | none => rw [hx] at hk; exact (Option.not_isSome_iff_eq_none.1 (hk.not.1 (by simp))).symm
  | some x =>
    obtain ⟨y, hy⟩ := Option.isSome_iff_exists.1 (hk.1 (by rw [hx]; rfl))
    have hxs := h.entry k x hx
    rw [hentries] at hxs
    rw [hy, hcomes _ x y hxs (h'.entry k y hy)]

/-- A fold of joins has the keys of all parts. -/
theorem mem_foldl_joinWith_empty (join : α → α → α) (parts : List (ExtTreeMap κ α)) (k : κ) :
    k ∈ parts.foldl (joinWith join) ∅ ↔ ∃ p ∈ parts, k ∈ p := by
  rw [mem_foldl_joinWith, or_iff_right ExtTreeMap.not_mem_empty]

end Collects

/-- A value is the greatest of some if no other is later, and of those as late none has greater
contents. -/
def IsGreatestValue (s : Set Value) (v : Value) : Prop :=
  v ∈ s ∧ ∀ w ∈ s, w.timestamp < v.timestamp ∨ w.timestamp = v.timestamp ∧ w.contents ≤ v.contents

theorem IsGreatestValue.unique (s : Set Value) (v w : Value) (hv : IsGreatestValue s v)
    (hw : IsGreatestValue s w) : v = w := by
  have hle := (Value.isLE_compare_iff v w).2 (hw.2 v hv.1)
  have hge := (Value.isLE_compare_iff w v).2 (hv.2 w hw.1)
  exact LawfulEqOrd.eq_of_compare (OrientedCmp.isLE_antisymm hle hge)

/-- A set is the union of some if it has the elements of all of them. -/
def IsUnion (sets : Set (ExtTreeSet Timestamp)) (u : ExtTreeSet Timestamp) : Prop :=
  ∀ ts, ts ∈ u ↔ ∃ s ∈ sets, ts ∈ s

theorem IsUnion.unique (sets : Set (ExtTreeSet Timestamp)) (u w : ExtTreeSet Timestamp)
    (hu : IsUnion sets u) (hw : IsUnion sets w) : u = w :=
  ExtTreeSet.ext_mem fun t => (hu t).trans (hw t).symm

/-- The merge of latest values keeps of each cell the greatest. -/
theorem collects_latestValues (parts : List (ExtTreeMap Cell Value)) :
    Collects IsGreatestValue parts (parts.foldl latestValues ∅) := by
  refine ⟨mem_foldl_joinWith_empty Value.newer parts, fun cell v hv => ?_⟩
  obtain ⟨hone, hge⟩ := (isPointwiseMax_foldl takesGreater_newer parts cell v).1 hv
  refine ⟨hone, ?_⟩
  rintro w ⟨p, hp, hw⟩
  exact (Value.isLE_compare_iff w v).1 (hge p hp w hw)

/-- The merge of latest timestamps keeps of each cell the greatest. -/
theorem collects_latestTimestamps (parts : List (ExtTreeMap Cell Timestamp)) :
    Collects IsGreatest parts (parts.foldl latestTimestamps ∅) := by
  refine ⟨mem_foldl_joinWith_empty laterTimestamp parts, fun cell ts hts => ?_⟩
  obtain ⟨hone, hge⟩ := (isPointwiseMax_foldl takesGreater_laterTimestamp parts cell ts).1 hts
  refine ⟨hone, ?_⟩
  rintro u ⟨p, hp, hu⟩
  exact isLE_compare.1 (hge p hp u hu)

/-- The merge of timestamp sets unites those of each cell. -/
theorem collects_allTimestamps (parts : List (ExtTreeMap Cell (ExtTreeSet Timestamp))) :
    Collects IsUnion parts (parts.foldl allTimestamps ∅) := by
  refine ⟨mem_foldl_joinWith_empty (· ∪ ·) parts, fun cell u hu ts => ?_⟩
  have hmerged : ts ∈ u ↔ ∃ s, (parts.foldl allTimestamps ∅)[cell]? = some s ∧ ts ∈ s := by
    rw [hu]
    simp only [Option.some.injEq, exists_eq_left']
  have hparts : (∃ s ∈ entriesOf parts cell, ts ∈ s) ↔
      ∃ p ∈ parts, ∃ s, p[cell]? = some s ∧ ts ∈ s := by
    constructor
    · rintro ⟨s, ⟨p, hp, hs⟩, hts⟩
      exact ⟨p, hp, s, hs, hts⟩
    · rintro ⟨p, hp, s, hs, hts⟩
      exact ⟨s, ⟨p, hp, hs⟩, hts⟩
  have hnone : ¬ ∃ s, (∅ : ExtTreeMap Cell (ExtTreeSet Timestamp))[cell]? = some s ∧ ts ∈ s := by
    simp
  rw [hmerged, hparts]
  exact mem_foldl_union.trans (or_iff_right hnone)

variable {values values' : List (ExtTreeMap Cell Value)}
  {stamps stamps' : List (ExtTreeMap Cell Timestamp)}
  {sets sets' : List (ExtTreeMap Cell (ExtTreeSet Timestamp))}

/-- **The same parts merge into the same map**, in whatever order and however often they come: its
keys are those of all parts, and its entry for a cell is the greatest value in the order of
timestamps and then contents, the greatest timestamp, or the union of the timestamps that the parts
have for the cell. -/
theorem merges_of_same_parts (hvalues : ∀ p, p ∈ values ↔ p ∈ values')
    (hstamps : ∀ p, p ∈ stamps ↔ p ∈ stamps') (hsets : ∀ p, p ∈ sets ↔ p ∈ sets') :
    (values.foldl latestValues ∅ = values'.foldl latestValues ∅ ∧
      Collects IsGreatestValue values (values.foldl latestValues ∅)) ∧
    (stamps.foldl latestTimestamps ∅ = stamps'.foldl latestTimestamps ∅ ∧
      Collects IsGreatest stamps (stamps.foldl latestTimestamps ∅)) ∧
    (sets.foldl allTimestamps ∅ = sets'.foldl allTimestamps ∅ ∧
      Collects IsUnion sets (sets.foldl allTimestamps ∅)) := by
  have hv := collects_latestValues values
  have ht := collects_latestTimestamps stamps
  have hs := collects_allTimestamps sets
  have hgreatest : ∀ (s : Set Timestamp) (a b : Timestamp),
      IsGreatest s a → IsGreatest s b → a = b := fun s a b ha hb => Std.le_antisymm (hb.2 ha.1) (ha.2 hb.1)
  exact ⟨⟨hv.unique (collects_latestValues values') IsGreatestValue.unique hvalues, hv⟩,
    ⟨ht.unique (collects_latestTimestamps stamps') hgreatest hstamps, ht⟩,
    ⟨hs.unique (collects_allTimestamps sets') IsUnion.unique hsets, hs⟩⟩

section TwoReplicas

/-- A cell that two replicas have different things for. -/
def sharedCell : Cell := ⟨[1], [1]⟩

/-- What one replica answers to reads of values, of latest timestamps and of all timestamps. -/
def oneValues : ExtTreeMap Cell Value :=
  ExtTreeMap.ofList [(sharedCell, ⟨[7], 5⟩), (⟨[2], []⟩, ⟨[3], 4⟩)] compare

def oneStamps : ExtTreeMap Cell Timestamp := ExtTreeMap.ofList [(sharedCell, 5)] compare

def oneSets : ExtTreeMap Cell (ExtTreeSet Timestamp) :=
  ExtTreeMap.ofList [(sharedCell, ExtTreeSet.ofList [5, 2] compare)] compare

/-- What another replica answers. -/
def otherValues : ExtTreeMap Cell Value := ExtTreeMap.ofList [(sharedCell, ⟨[7, 0], 5⟩)] compare

def otherStamps : ExtTreeMap Cell Timestamp := ExtTreeMap.ofList [(sharedCell, -1)] compare

def otherSets : ExtTreeMap Cell (ExtTreeSet Timestamp) :=
  ExtTreeMap.ofList [(sharedCell, ExtTreeSet.ofList [2, 9] compare), (⟨[2], []⟩, ∅)] compare

/-- Two replicas have different contents at the same timestamp: the greater contents are kept, in
both orders and when the second replica answers twice. -/
theorem merges_of_two_replicas :
    ([oneValues, otherValues].foldl latestValues ∅ =
        [otherValues, oneValues, otherValues].foldl latestValues ∅ ∧
      ([oneValues, otherValues].foldl latestValues ∅)[sharedCell]? = some ⟨[7, 0], 5⟩) ∧
    ([oneStamps, otherStamps].foldl latestTimestamps ∅ =
        [otherStamps, oneStamps, otherStamps].foldl latestTimestamps ∅ ∧
      ([oneStamps, otherStamps].foldl latestTimestamps ∅)[sharedCell]? = some 5) ∧
    ([oneSets, otherSets].foldl allTimestamps ∅ =
        [otherSets, oneSets, otherSets].foldl allTimestamps ∅ ∧
      (([oneSets, otherSets].foldl allTimestamps ∅)[sharedCell]?.map ExtTreeSet.toList) =
        some [2, 5, 9]) := by
  have htwice : ∀ {α : Type} (a b : α) (p : α), p ∈ [a, b] ↔ p ∈ [b, a, b] := by
    intro α a b p
    simp only [List.mem_cons, List.not_mem_nil, or_false]
    tauto
  obtain ⟨⟨hvalues, -⟩, ⟨hstamps, -⟩, ⟨hsets, -⟩⟩ :=
    merges_of_same_parts (htwice oneValues otherValues) (htwice oneStamps otherStamps)
      (htwice oneSets otherSets)
  exact ⟨⟨hvalues, by decide⟩, ⟨hstamps, by decide⟩, ⟨hsets, by decide⟩⟩

end TwoReplicas

end Merge

end QuorumStore
