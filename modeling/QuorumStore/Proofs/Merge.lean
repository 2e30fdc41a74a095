import Mathlib.Data.List.Basic
import QuorumStore.Merge
import QuorumStore.Proofs.OrderedMap

/-!
# What a merged answer holds

* `Merge.getElem?_joinWith`: a joined map is the join of its two sides, key by key.
* `Merge.exists_getElem?_joinWith`: joining upper bounds loses nothing of either side.
* `Merge.foldl_merge_same`: joining what is the same.
* `Merge.isPointwiseMax_foldl`, `Merge.mem_foldl_union`: joins that take the greater of two give the
  pointwise maximum, and unions what any side has.
* `Merge.le_newer`, `Merge.le_laterTimestamp`: joins of values and timestamps are upper bounds.
-/

namespace QuorumStore.Merge

open Std

section Join

variable {κ α : Type} [Ord κ] [TransOrd κ] [LawfulEqOrd κ] (join : α → α → α)

theorem getElem?_joinEntry (acc : ExtTreeMap κ α) (key k : κ) (x : α) :
    (joinEntry join acc key x)[k]? =
      if compare key k = .eq then Option.merge join acc[k]? (some x) else acc[k]? := by
  unfold joinEntry
  cases hkey : acc[key]? with
  | none =>
    rw [ExtTreeMap.getElem?_insert]
    split
    · rename_i h
      rw [← LawfulEqOrd.eq_of_compare h, hkey]
      rfl
    · rfl
  | some existing =>
    rw [ExtTreeMap.getElem?_insert]
    split
    · rename_i h
      rw [← LawfulEqOrd.eq_of_compare h, hkey]
      rfl
    · rfl

theorem getElem?_foldl_joinEntry_of_not_mem {l : List (κ × α)} {k : κ} (acc : ExtTreeMap κ α)
    (h : k ∉ l.map Prod.fst) :
    (l.foldl (fun acc e => joinEntry join acc e.1 e.2) acc)[k]? = acc[k]? := by
  induction l generalizing acc with
  | nil => rfl
  | cons e l ih =>
    rw [List.map_cons, List.mem_cons, not_or] at h
    rw [List.foldl_cons, ih _ h.2, getElem?_joinEntry, if_neg]
    exact fun heq => h.1 (LawfulEqOrd.eq_of_compare heq).symm

/-- An entry of a list with distinct keys is joined exactly once. -/
theorem getElem?_foldl_joinEntry_of_mem {l : List (κ × α)} {k : κ} {x : α} (acc : ExtTreeMap κ α)
    (hdistinct : (l.map Prod.fst).Nodup) (h : (k, x) ∈ l) :
    (l.foldl (fun acc e => joinEntry join acc e.1 e.2) acc)[k]? =
      Option.merge join acc[k]? (some x) := by
  induction l generalizing acc with
  | nil => cases h
  | cons e l ih =>
    rw [List.map_cons, List.nodup_cons] at hdistinct
    rw [List.foldl_cons]
    rcases List.mem_cons.1 h with rfl | hl
    · rw [getElem?_foldl_joinEntry_of_not_mem join _ hdistinct.1, getElem?_joinEntry,
        if_pos compare_self]
    · have hne : ¬ compare e.1 k = .eq := by
        intro heq
        rw [LawfulEqOrd.eq_of_compare heq] at hdistinct
        exact hdistinct.1 (List.mem_map_of_mem hl)
      rw [ih _ hdistinct.2 hl, getElem?_joinEntry, if_neg hne]

/-- **A joined map is the join of its two sides, key by key.** -/
theorem getElem?_joinWith (acc part : ExtTreeMap κ α) (k : κ) :
    (joinWith join acc part)[k]? = Option.merge join acc[k]? part[k]? := by
  unfold joinWith
  rw [ExtTreeMap.foldl_eq_foldl_toList]
  have hdistinct : (part.toList.map Prod.fst).Nodup := by
    rw [ExtTreeMap.map_fst_toList_eq_keys]
    exact ExtTreeMap.nodup_keys
  cases hk : part[k]? with
  | none =>
    rw [Option.merge_none_right, getElem?_foldl_joinEntry_of_not_mem]
    rw [ExtTreeMap.map_fst_toList_eq_keys, ExtTreeMap.mem_keys, ExtTreeMap.mem_iff_isSome_getElem?, hk]
    exact Bool.false_ne_true
  | some x =>
    exact getElem?_foldl_joinEntry_of_mem join acc hdistinct
      (ExtTreeMap.mem_toList_iff_getElem?_eq_some.2 hk)

/-- A join of maps has for each key the join of what they have. -/
theorem getElem?_foldl_joinWith (parts : List (ExtTreeMap κ α)) (acc : ExtTreeMap κ α) (k : κ) :
    (parts.foldl (joinWith join) acc)[k]? =
      parts.foldl (fun found part => Option.merge join found part[k]?) acc[k]? := by
  induction parts generalizing acc with
  | nil => rfl
  | cons part parts ih => rw [List.foldl_cons, List.foldl_cons, ih, getElem?_joinWith]

/-- A join of the answers that have come has for each key the join of what they have. -/
theorem getElem?_foldl_filterMap {ι : Type} (answer : ι → Option (ExtTreeMap κ α)) (l : List ι)
    (k : κ) : ((l.filterMap answer).foldl (joinWith join) ∅)[k]? =
      l.foldl (fun found i => Option.merge join found ((answer i).bind (·[k]?))) none := by
  rw [getElem?_foldl_joinWith, ExtTreeMap.getElem?_empty, List.foldl_filterMap]
  congr 1
  funext found i
  cases answer i with
  | none => exact Option.merge_none_right.symm
  | some part => rfl

variable {join}

/-- Where joining makes nothing lesser, what one side reaches is reached by the joined map. -/
theorem exists_getElem?_joinWith {stamp : α → Timestamp} {ts : Timestamp} {acc part : ExtTreeMap κ α}
    {k : κ} (hjoin : ∀ a b, stamp a ≤ stamp (join a b) ∧ stamp b ≤ stamp (join a b))
    (h : (∃ x, acc[k]? = some x ∧ ts ≤ stamp x) ∨ ∃ x, part[k]? = some x ∧ ts ≤ stamp x) :
    ∃ x, (joinWith join acc part)[k]? = some x ∧ ts ≤ stamp x := by
  rw [getElem?_joinWith]
  rcases h with ⟨x, hx, hle⟩ | ⟨x, hx, hle⟩
  · rw [hx]
    cases part[k]? with
    | none => exact ⟨x, rfl, hle⟩
    | some y => exact ⟨join x y, rfl, Std.le_trans hle (hjoin x y).1⟩
  · rw [hx]
    cases acc[k]? with
    | none => exact ⟨x, rfl, hle⟩
    | some y => exact ⟨join y x, rfl, Std.le_trans hle (hjoin y x).2⟩

end Join

/-- **Joining what is the same** comes to just that, however often it is given. -/
theorem foldl_merge_same {ι α : Type} {join : α → α → α} (hjoin : ∀ x, join x x = x)
    {give : ι → Option α} {whole : Option α} {l : List ι}
    (hsame : ∀ i ∈ l, give i = none ∨ give i = whole)
    (hsome : whole.isSome = true → ∃ i ∈ l, give i = whole) :
    l.foldl (fun found i => Option.merge join found (give i)) none = whole := by
  -- what is found so far is nothing or the whole
  have hfold : ∀ found : Option α, found = none ∨ found = whole →
      (whole.isSome = true → found = whole ∨ ∃ i ∈ l, give i = whole) →
      l.foldl (fun found i => Option.merge join found (give i)) found = whole := by
    clear hsome
    induction l with
    | nil =>
      intro found hfound hwhole
      cases whole with
      | none => exact hfound.elim id id
      | some x => exact (hwhole rfl).resolve_right (by simp)
    | cons i l ih =>
      intro found hfound hwhole
      rw [List.foldl_cons]
      have hrest := ih fun j hj => hsame j (List.mem_cons_of_mem i hj)
      have hgive := hsame i List.mem_cons_self
      have hboth : Option.merge join whole whole = whole := by
        cases whole with
        | none => rfl
        | some x => exact congrArg some (hjoin x)
      rcases hfound with rfl | rfl <;> rcases hgive with hnone | hgiven
      · rw [hnone]
        refine hrest none (Or.inl rfl) fun h => ?_
        rcases hwhole h with hfound | ⟨j, hj, hgives⟩
        · exact Or.inl hfound
        · rcases List.mem_cons.1 hj with rfl | hj
          · exact Or.inl (hnone.symm.trans hgives)
          · exact Or.inr ⟨j, hj, hgives⟩
      · rw [hgiven, Option.merge_none_left]
        exact hrest whole (Or.inr rfl) fun _ => Or.inl rfl
      · rw [hnone, Option.merge_none_right]
        exact hrest found (Or.inr rfl) fun _ => Or.inl rfl
      · rw [hgiven, hboth]
        exact hrest found (Or.inr rfl) fun _ => Or.inl rfl
  exact hfold none (Or.inl rfl) fun h => Or.inr (hsome h)

section Extremes

variable {κ α : Type} [Ord κ] [TransOrd κ]

/-- A map that has for each key the greatest of what some maps have for it. -/
def IsPointwiseMax [Ord α] (parts : List (ExtTreeMap κ α)) (m : ExtTreeMap κ α) : Prop :=
  ∀ (k : κ) (x : α), m[k]? = some x ↔ (∃ p ∈ parts, p[k]? = some x) ∧
    ∀ p ∈ parts, ∀ y, p[k]? = some y → (compare y x).isLE = true

/-- Joining takes the greater of two. -/
structure TakesGreater [Ord α] (join : α → α → α) : Prop where
  one_of : ∀ a b, join a b = a ∨ join a b = b
  left_le : ∀ a b, (compare a (join a b)).isLE = true
  right_le : ∀ a b, (compare b (join a b)).isLE = true

theorem takesGreater_ite [Ord α] [TransOrd α] :
    TakesGreater fun a b : α => if (compare a b).isLT then b else a := by
  refine ⟨fun a b => ?_, fun a b => ?_, fun a b => ?_⟩ <;> split
  · exact Or.inr rfl
  · exact Or.inl rfl
  · rename_i h
    exact Ordering.isLE_of_eq_lt (Ordering.isLT_iff_eq_lt.1 h)
  · exact Ordering.isLE_of_eq_eq compare_self
  · exact Ordering.isLE_of_eq_eq compare_self
  · rename_i h
    refine OrientedCmp.isGE_iff_isLE.1 ?_
    cases hcmp : compare a b with
    | lt => exact absurd (by rw [hcmp]; rfl) h
    | eq | gt => rfl

theorem takesGreater_newer : TakesGreater Value.newer := takesGreater_ite

theorem takesGreater_laterTimestamp : TakesGreater laterTimestamp := by
  have heq : laterTimestamp = fun a b => if (compare a b).isLT then b else a := by
    funext a b
    simp only [Ordering.isLT_iff_eq_lt, compare_eq_lt]
    rfl
  rw [heq]
  exact takesGreater_ite

/-- What the join of two optional things is: one of them, at least as great as either. -/
theorem TakesGreater.of_merge_eq_some [Ord α] {join : α → α → α} (h : TakesGreater join)
    (hself : ∀ a : α, (compare a a).isLE = true) {o o' : Option α} {x : α}
    (hx : Option.merge join o o' = some x) : (o = some x ∨ o' = some x) ∧
      ∀ y, o = some y ∨ o' = some y → (compare y x).isLE = true := by
  cases o with
  | none =>
    rw [Option.merge_none_left] at hx
    refine ⟨Or.inr hx, fun y hy => ?_⟩
    rcases hy with hy | hy
    · cases hy
    · rw [hx] at hy
      exact Option.some.inj hy ▸ hself x
  | some a =>
    cases o' with
    | none =>
      rw [Option.merge_none_right] at hx
      refine ⟨Or.inl hx, fun y hy => ?_⟩
      rcases hy with hy | hy
      · rw [hx] at hy
        exact Option.some.inj hy ▸ hself x
      · cases hy
    | some b =>
      obtain rfl : join a b = x := Option.some.inj hx
      refine ⟨(h.one_of a b).imp (congrArg some ·.symm) (congrArg some ·.symm), fun y hy => ?_⟩
      rcases hy with hy | hy
      · exact Option.some.inj hy ▸ h.left_le a b
      · exact Option.some.inj hy ▸ h.right_le a b

/-- What a fold of such joins is: one of those joined, at least as great as any. -/
theorem TakesGreater.of_foldl_eq_some [Ord α] [TransOrd α] {join : α → α → α}
    (h : TakesGreater join) {ι : Type} {give : ι → Option α} {l : List ι} {found : Option α} {x : α}
    (hx : l.foldl (fun found i => Option.merge join found (give i)) found = some x) :
    (found = some x ∨ ∃ i ∈ l, give i = some x) ∧
      ∀ y, (found = some y ∨ ∃ i ∈ l, give i = some y) → (compare y x).isLE = true := by
  have hself : ∀ a : α, (compare a a).isLE = true := fun a => Ordering.isLE_of_eq_eq compare_self
  induction l generalizing found with
  | nil =>
    refine ⟨Or.inl hx, fun y hy => ?_⟩
    rcases hy with hy | ⟨i, hi, -⟩
    · exact Option.some.inj (hy.symm.trans hx) ▸ hself y
    · cases hi
  | cons i l ih =>
    obtain ⟨hone, hge⟩ := ih hx
    simp only [List.mem_cons, exists_eq_or_imp, ← or_assoc]
    refine ⟨hone.imp_left fun hfirst => (h.of_merge_eq_some hself hfirst).1, fun y hy => ?_⟩
    rcases hy with hy | hy
    · -- what came first is below its join with what was found before
      cases hmerge : Option.merge join found (give i) with
      | none => cases hfound : found <;> cases hgive : give i <;> simp_all
      | some z =>
        exact TransCmp.isLE_trans ((h.of_merge_eq_some hself hmerge).2 y hy) (hge z (Or.inl hmerge))
    · exact hge y (Or.inr hy)

theorem isSome_merge {join : α → α → α} {o o' : Option α} :
    (Option.merge join o o').isSome = (o.isSome || o'.isSome) := by
  cases o <;> cases o' <;> rfl

variable [LawfulEqOrd κ]

/-- A join of maps has the keys of all of them. -/
theorem mem_foldl_joinWith {join : α → α → α} {parts : List (ExtTreeMap κ α)}
    {acc : ExtTreeMap κ α} {k : κ} :
    k ∈ parts.foldl (joinWith join) acc ↔ k ∈ acc ∨ ∃ p ∈ parts, k ∈ p := by
  induction parts generalizing acc with
  | nil => simp
  | cons p parts ih =>
    rw [List.foldl_cons, ih]
    simp only [ExtTreeMap.mem_iff_isSome_getElem?, getElem?_joinWith, isSome_merge,
      Bool.or_eq_true, List.mem_cons, exists_eq_or_imp, or_assoc]

/-- **Where joining takes the greater of two, a join of maps is their pointwise maximum.** -/
theorem isPointwiseMax_foldl [Ord α] [TransOrd α] [LawfulEqOrd α] {join : α → α → α}
    (h : TakesGreater join) (parts : List (ExtTreeMap κ α)) :
    IsPointwiseMax parts (parts.foldl (joinWith join) ∅) := by
  have hsome : ∀ {k : κ} {x : α}, (parts.foldl (joinWith join) ∅)[k]? = some x →
      (∃ p ∈ parts, p[k]? = some x) ∧
        ∀ p ∈ parts, ∀ y, p[k]? = some y → (compare y x).isLE = true := by
    intro k x hx
    rw [getElem?_foldl_joinWith] at hx
    obtain ⟨hone, hge⟩ := h.of_foldl_eq_some hx
    refine ⟨hone.resolve_left (by simp), fun p hp y hy => hge y (Or.inr ⟨p, hp, hy⟩)⟩
  refine fun k x => ⟨hsome, ?_⟩
  rintro ⟨⟨p, hp, hx⟩, hge⟩
  have hmem : k ∈ parts.foldl (joinWith join) ∅ := by
    refine mem_foldl_joinWith.2 (Or.inr ⟨p, hp, ?_⟩)
    rw [ExtTreeMap.mem_iff_isSome_getElem?, hx]
    rfl
  obtain ⟨z, hz⟩ := Option.isSome_iff_exists.1 (ExtTreeMap.mem_iff_isSome_getElem?.1 hmem)
  obtain ⟨⟨p', hp', hz'⟩, hge'⟩ := hsome hz
  rw [hz, LawfulEqOrd.eq_of_compare (OrientedCmp.isLE_antisymm (hge p' hp' z hz') (hge' p hp x hx))]

/-- **A union of maps of sets** has for each key what any of them has for it. -/
theorem mem_foldl_union [Ord α] [TransOrd α] [LawfulEqOrd α] {parts : List (ExtTreeMap κ (ExtTreeSet α))}
    {acc : ExtTreeMap κ (ExtTreeSet α)} {k : κ} {x : α} :
    (∃ s, (parts.foldl (joinWith (· ∪ ·)) acc)[k]? = some s ∧ x ∈ s) ↔
      (∃ s, acc[k]? = some s ∧ x ∈ s) ∨ ∃ p ∈ parts, ∃ s, p[k]? = some s ∧ x ∈ s := by
  have hmerge : ∀ o o' : Option (ExtTreeSet α), (∃ s, Option.merge (· ∪ ·) o o' = some s ∧ x ∈ s) ↔
      (∃ s, o = some s ∧ x ∈ s) ∨ ∃ s, o' = some s ∧ x ∈ s := by
    intro o o'
    cases o <;> cases o' <;> simp [ExtTreeSet.mem_union_iff]
  induction parts generalizing acc with
  | nil => simp
  | cons p parts ih =>
    rw [List.foldl_cons]
    refine ih.trans ?_
    rw [getElem?_joinWith, hmerge]
    simp only [List.mem_cons, exists_eq_or_imp, or_assoc]

end Extremes

theorem newer_self (a : Value) : a.newer a = a := by
  unfold Value.newer
  split <;> rfl

theorem laterTimestamp_self (a : Timestamp) : laterTimestamp a a = a := by
  unfold laterTimestamp
  split <;> rfl

theorem union_self {κ : Type} [Ord κ] [TransOrd κ] [LawfulEqOrd κ] (a : ExtTreeSet κ) :
    a ∪ a = a :=
  ExtTreeSet.ext_mem fun k => by rw [ExtTreeSet.mem_union_iff, or_self]

/-- Of two values the greater is written no earlier than either. -/
theorem le_newer (a b : Value) :
    a.timestamp ≤ (a.newer b).timestamp ∧ b.timestamp ≤ (a.newer b).timestamp := by
  have hcmp := Value.compare_def a b
  unfold Value.newer
  by_cases h : (compare a b).isLT = true
  · rw [if_pos h]
    refine ⟨?_, Std.le_refl _⟩
    rw [Ordering.isLT_iff_eq_lt, hcmp, Ordering.then_eq_lt] at h
    rcases h with h | ⟨h, -⟩
    · exact Std.le_of_lt (compare_eq_lt.1 h)
    · rw [LawfulEqOrd.eq_of_compare h]
      exact Std.le_refl _
  · rw [if_neg h]
    refine ⟨Std.le_refl _, ?_⟩
    rw [Ordering.isLT_iff_eq_lt, hcmp, Ordering.then_eq_lt, not_or] at h
    exact Std.not_lt.1 fun hlt => h.1 (compare_eq_lt.2 hlt)

theorem le_laterTimestamp (a b : Timestamp) :
    a ≤ laterTimestamp a b ∧ b ≤ laterTimestamp a b := by
  unfold laterTimestamp
  split
  · rename_i h
    exact ⟨Std.le_of_lt h, Std.le_refl _⟩
  · rename_i h
    exact ⟨Std.le_refl _, Std.not_lt.1 h⟩

end QuorumStore.Merge
