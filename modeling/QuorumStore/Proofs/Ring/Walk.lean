import Mathlib.Data.Finset.Dedup
import Mathlib.Data.Finset.Card
import Mathlib.Data.List.Rotate
import QuorumStore.Proofs.Ring.RangePlan
import QuorumStore.Proofs.Ring.Replicas
import QuorumStore.Proofs.SortedList

/-!
# The walk around a ring

The replicas of a row are found on a walk that begins at the token of the row, goes upward and around the
ring, and comes past each token once.

* `RingLayout.Owns`, `RingLayout.ownerToken_eq_some_iff`: the token of a row, by its place among the
  tokens.
* `RingLayout.exists_entries`: the entries of a ring before and after one of them.
* `RingLayout.walkFrom`, `RingLayout.clockwise_eq_walk`: the walk is a rotation of the tokens.
* `RingLayout.firstDistinct_eq_take`: the first distinct members of a list.
* `RingLayout.ListedUpTo`, `RingLayout.replicas_ordered`: endpoints are listed in the order of their
  first tokens.
* `RingLayout.placed`: **the replicas of a row are the first distinct endpoints on the walk from its
  token, unless the ring has no room for them.**
-/

namespace QuorumStore

open Std

namespace RingLayout

variable {r : RingLayout} {row t : Bytes} {id : ReplicaId}

section Owner

/-- A token owns a row: it is the greatest one at or below the row, or the greatest of all where every
token is above the row. -/
def Owns (r : RingLayout) (t row : Bytes) : Prop :=
  t ∈ r.tokens ∧
    ((t ≤ row ∧ ∀ s ∈ r.tokens, s ≤ row → s ≤ t) ∨ ∀ s ∈ r.tokens, row < s ∧ s ≤ t)

theorem mem_tokenList : t ∈ r.tokenList ↔ t ∈ r.tokens := ExtTreeMap.mem_keys

/-- The last of some ascending tokens is the greatest. -/
theorem getLast?_eq_some_iff {l : List Bytes} (hsorted : l.Pairwise (· < ·)) :
    l.getLast? = some t ↔ t ∈ l ∧ ∀ s ∈ l, s ≤ t := by
  rw [getLast?_eq_some_iff_greatest (· < ·) List.lt_irrefl (fun _ _ _ => List.lt_trans) hsorted]
  refine and_congr_right fun _ => forall₂_congr fun s _ => ?_
  grind

/-- **The token of a row** is the one that owns it. -/
theorem ownerToken_eq_some_iff : r.ownerToken row = some t ↔ r.Owns t row := by
  have hsorted := r.tokenList_pairwise
  have hmono : r.tokenList.Pairwise fun a b =>
      decide (b ≤ row) = true → decide (a ≤ row) = true := by
    refine hsorted.imp fun hab hb => ?_
    exact decide_eq_true (List.le_trans (List.le_of_lt hab) (of_decide_eq_true hb))
  have hbelow : ∀ s, s ∈ r.tokenList.takeWhile (· ≤ row) ↔ s ∈ r.tokens ∧ s ≤ row := by
    intro s
    rw [mem_takeWhile_iff hmono, mem_tokenList, decide_eq_true_iff]
  have hfront : (r.tokenList.takeWhile (· ≤ row)).Pairwise (· < ·) :=
    hsorted.sublist (List.takeWhile_sublist _)
  unfold ownerToken Owns
  rw [Option.or_eq_some_iff, List.getLast?_eq_none_iff, getLast?_eq_some_iff hfront,
    getLast?_eq_some_iff hsorted]
  simp only [hbelow, mem_tokenList]
  constructor
  · rintro (⟨⟨ht, hle⟩, hgreatest⟩ | ⟨hnone, ht, hgreatest⟩)
    · exact ⟨ht, Or.inl ⟨hle, fun s hs hsrow => hgreatest s ⟨hs, hsrow⟩⟩⟩
    · refine ⟨ht, Or.inr fun s hs => ⟨List.not_le.1 fun hsrow => ?_, hgreatest s hs⟩⟩
      have hmem := (hbelow s).2 ⟨hs, hsrow⟩
      rw [hnone] at hmem
      cases hmem
  · rintro ⟨ht, ⟨hle, hgreatest⟩ | hgreatest⟩
    · exact Or.inl ⟨⟨ht, hle⟩, fun s hs => hgreatest s hs.1 hs.2⟩
    · refine Or.inr ⟨List.eq_nil_iff_forall_not_mem.2 fun s hmem => ?_, ht, fun s hs => (hgreatest s hs).2⟩
      obtain ⟨hs, hsrow⟩ := (hbelow s).1 hmem
      exact List.not_le.2 (hgreatest s hs).1 hsrow

/-- On a ring with tokens every row has one. -/
theorem exists_ownerToken (hne : r.tokens ≠ ∅) (row : Bytes) : ∃ t, r.ownerToken row = some t := by
  obtain ⟨_, last, -, hlast, -⟩ := cuts_eq hne RowRange.all
  unfold ownerToken
  cases (r.tokenList.takeWhile (· ≤ row)).getLast? with
  | some t => exact ⟨t, rfl⟩
  | none => exact ⟨last, hlast⟩

end Owner

section Walk

/-- The entries of a ring ascend with their tokens. -/
theorem toList_pairwise (r : RingLayout) : r.tokens.toList.Pairwise fun a b => a.1 < b.1 :=
  ExtTreeMap.ordered_keys_toList.imp fun h => (Bytes.compare_eq_lt_iff _ _).1 h

/-- The entries of a ring before and after one of them. -/
theorem exists_entries (ht : r.tokens[t]? = some id) : ∃ before after,
    r.tokens.toList = before ++ (t, id) :: after ∧ (∀ x ∈ before, x.1 < t) ∧ ∀ x ∈ after, t < x.1 := by
  obtain ⟨before, after, hsplit⟩ :=
    List.append_of_mem (ExtTreeMap.mem_toList_iff_getElem?_eq_some.2 ht)
  have hsorted := r.toList_pairwise
  rw [hsplit, List.pairwise_append, List.pairwise_cons] at hsorted
  obtain ⟨-, ⟨hafter, -⟩, hbefore⟩ := hsorted
  exact ⟨before, after, hsplit, fun x hx => hbefore x hx _ List.mem_cons_self, hafter⟩

/-- The endpoints clockwise from a token are those of the entries from there on, and then the others. -/
theorem clockwise_of_entries {before after : List (Bytes × ReplicaId)}
    (hsplit : r.tokens.toList = before ++ (t, id) :: after) (hbefore : ∀ x ∈ before, x.1 < t) :
    r.clockwise t = id :: (after ++ before).map Prod.snd := by
  have hlow : ∀ x ∈ before, decide (x.1 < t) = true := fun x hx => decide_eq_true (hbefore x hx)
  have hdrop : ((t, id) :: after).dropWhile (·.1 < t) = (t, id) :: after :=
    List.dropWhile_cons_of_neg (by simp)
  have htake : ((t, id) :: after).takeWhile (·.1 < t) = [] := List.takeWhile_cons_of_neg (by simp)
  unfold clockwise
  dsimp only
  rw [hsplit, List.dropWhile_append_of_pos hlow, List.takeWhile_append_of_pos hlow, hdrop, htake,
    List.append_nil]
  rfl

/-- The tokens in the order of a walk that begins at one of them, goes upward and around the ring. -/
def walkFrom (r : RingLayout) (t : Bytes) : List Bytes := r.tokenList.rotate (r.tokenList.idxOf t)

/-- The endpoints met on a walk. -/
def met (r : RingLayout) (walk : List Bytes) : List ReplicaId := walk.filterMap (r.tokens[·]?)

theorem met_fst {entries : List (Bytes × ReplicaId)} (h : ∀ x ∈ entries, r.tokens[x.1]? = some x.2) :
    r.met (entries.map Prod.fst) = entries.map Prod.snd := by
  unfold met
  rw [List.filterMap_map]
  induction entries with
  | nil => rfl
  | cons x rest ih =>
    have hx : ((r.tokens[·]?) ∘ Prod.fst) x = some x.2 := h x List.mem_cons_self
    rw [List.filterMap_cons_some hx, ih fun y hy => h y (List.mem_cons_of_mem _ hy)]
    rfl

/-- **What is clockwise from a token is met on the walk from there.** -/
theorem clockwise_eq_walk (ht : t ∈ r.tokens) : r.clockwise t = r.met (r.walkFrom t) := by
  obtain ⟨id, hid⟩ := Option.isSome_iff_exists.1 (ExtTreeMap.mem_iff_isSome_getElem?.1 ht)
  obtain ⟨before, after, hsplit, hbefore, -⟩ := exists_entries hid
  have htokens : r.tokenList = before.map Prod.fst ++ t :: after.map Prod.fst := by
    unfold tokenList
    rw [← ExtTreeMap.map_fst_toList_eq_keys, hsplit, List.map_append]
    rfl
  -- the walk is the tokens from `t` on, and then those before it
  have hwalk : r.walkFrom t = ((t, id) :: after ++ before).map Prod.fst := by
    have hnew : t ∉ before.map Prod.fst := by
      intro hmem
      obtain ⟨x, hx, rfl⟩ := List.mem_map.1 hmem
      exact List.lt_irrefl _ (hbefore x hx)
    have hindex : r.tokenList.idxOf t = (before.map Prod.fst).length := by
      rw [htokens, List.idxOf_append_of_notMem hnew, List.idxOf_cons_self, Nat.add_zero]
    unfold walkFrom
    rw [hindex, htokens, List.rotate_append_length_eq, List.map_append]
    rfl
  have hentries : ∀ x ∈ (t, id) :: after ++ before, r.tokens[x.1]? = some x.2 := by
    intro x hx
    refine ExtTreeMap.mem_toList_iff_getElem?_eq_some.1 ?_
    rw [hsplit]
    exact List.mem_append.2 (List.mem_append.1 hx).symm
  rw [hwalk, met_fst hentries]
  exact clockwise_of_entries hsplit hbefore

end Walk

section Distinct

variable {n : Nat} {found l : List ReplicaId}

/-- **The first distinct members of a list**, after those already found. -/
theorem firstDistinct_eq_take (hle : found.length ≤ n) :
    firstDistinct n found l = (found ++ (l.filter (· ∉ found)).eraseDups).take n := by
  induction l generalizing found with
  | nil =>
    unfold firstDistinct
    rw [List.filter_nil, List.eraseDups_nil, List.append_nil, List.take_of_length_le hle]
  | cons x rest ih =>
    unfold firstDistinct
    split
    · rename_i hfull
      rw [List.take_append_of_le_length (Nat.le_of_eq hfull.symm), List.take_of_length_le hle]
    · rename_i hopen
      split
      · rename_i hold
        rw [ih hle, List.filter_cons_of_neg (by simpa using hold)]
      · rename_i hnew
        have hlonger : (found ++ [x]).length ≤ n := by
          rw [List.length_append, List.length_singleton]
          omega
        rw [ih hlonger, List.filter_cons_of_pos (by simpa using hnew), List.eraseDups_cons,
          List.filter_filter, List.append_assoc]
        have hsame : (rest.filter fun a => decide (a ∉ found ++ [x])) =
            rest.filter fun a => (!a == x) && decide (a ∉ found) := by
          refine List.filter_congr fun a _ => ?_
          by_cases ha : a = x <;> simp [ha]
        rw [hsame]
        rfl

theorem firstDistinct_nil (n : Nat) (l : List ReplicaId) :
    firstDistinct n [] l = l.eraseDups.take n := by
  rw [firstDistinct_eq_take (Nat.zero_le n)]
  simp

theorem nodup_eraseDups (l : List ReplicaId) : l.eraseDups.Nodup := by
  have hnodup := nodup_firstDistinct l.eraseDups.length (l := l) List.nodup_nil
  rw [firstDistinct_nil, List.take_length] at hnodup
  exact hnodup

/-- There are as many distinct members as the list has as a set. -/
theorem length_eraseDups (l : List ReplicaId) : l.eraseDups.length = l.toFinset.card := by
  rw [← List.toFinset_card_of_nodup (nodup_eraseDups l)]
  congr 1
  ext id
  rw [List.mem_toFinset, List.mem_toFinset, List.mem_eraseDups]

end Distinct

section Listed

/-- The first token of an endpoint. -/
def IsFirstToken (r : RingLayout) (id : ReplicaId) (t : Bytes) : Prop :=
  r.tokens[t]? = some id ∧ ∀ s, r.tokens[s]? = some id → t ≤ s

theorem mem_values_iff : id ∈ r.tokens.values ↔ ∃ t : Bytes, r.tokens[t]? = some id := by
  rw [values_eq_map_snd, List.mem_map]
  constructor
  · rintro ⟨⟨t, _⟩, hmem, rfl⟩
    exact ⟨t, ExtTreeMap.mem_toList_iff_getElem?_eq_some.1 hmem⟩
  · rintro ⟨t, ht⟩
    exact ⟨(t, id), ExtTreeMap.mem_toList_iff_getElem?_eq_some.2 ht, rfl⟩

/-- The first token of one endpoint comes before that of another. -/
def ListedBefore (r : RingLayout) (a b : ReplicaId) : Prop :=
  ∃ s t, r.IsFirstToken a s ∧ r.IsFirstToken b t ∧ s < t

/-- What has been listed when some entries have been looked at. -/
structure ListedUpTo (r : RingLayout) (seen : List (Bytes × ReplicaId)) (found : List ReplicaId) : Prop where
  mem : ∀ a, a ∈ found ↔ a ∈ seen.map Prod.snd
  first : ∀ a ∈ found, ∃ s ∈ seen, r.IsFirstToken a s.1
  ordered : found.Pairwise r.ListedBefore

variable {x : ReplicaId} {seen rest : List (Bytes × ReplicaId)} {found : List ReplicaId}

/-- An endpoint that has not been listed comes to its first token. -/
theorem isFirstToken_of_entries (hsplit : r.tokens.toList = seen ++ (t, x) :: rest)
    (hnew : x ∉ seen.map Prod.snd) : r.IsFirstToken x t := by
  have hsorted := r.toList_pairwise
  rw [hsplit, List.pairwise_append, List.pairwise_cons] at hsorted
  have hentry : (t, x) ∈ r.tokens.toList := by
    rw [hsplit]
    exact List.mem_append_right _ List.mem_cons_self
  refine ⟨ExtTreeMap.mem_toList_iff_getElem?_eq_some.1 hentry, fun s hs => ?_⟩
  have hother := ExtTreeMap.mem_toList_iff_getElem?_eq_some.2 hs
  rw [hsplit] at hother
  rcases List.mem_append.1 hother with hseen | hrest
  · exact absurd (List.mem_map_of_mem hseen) hnew
  · rcases List.mem_cons.1 hrest with heq | hrest
    · rw [(Prod.mk.inj heq).1]
      exact List.le_refl t
    · exact List.le_of_lt (hsorted.2.1.1 _ hrest)

/-- One more entry is looked at. -/
theorem ListedUpTo.step (h : r.ListedUpTo seen found)
    (hsplit : r.tokens.toList = seen ++ (t, x) :: rest) :
    r.ListedUpTo (seen ++ [(t, x)]) (if x ∈ found then found else found ++ [x]) := by
  have hfirst : ∀ a ∈ found, ∃ s ∈ seen ++ [(t, x)], r.IsFirstToken a s.1 := fun a ha =>
    let ⟨s, hs, hsfirst⟩ := h.first a ha
    ⟨s, List.mem_append_left _ hs, hsfirst⟩
  by_cases hold : x ∈ found
  · rw [if_pos hold]
    refine ⟨fun a => ?_, hfirst, h.ordered⟩
    rw [List.map_append, List.mem_append, h.mem]
    refine ⟨Or.inl, Or.rec id fun ha => ?_⟩
    rw [List.mem_singleton.1 ha]
    exact (h.mem x).1 hold
  · rw [if_neg hold]
    have hnow : r.IsFirstToken x t := isFirstToken_of_entries hsplit fun hx => hold ((h.mem x).2 hx)
    refine ⟨fun a => ?_, fun a ha => ?_, List.pairwise_append.2 ⟨h.ordered, List.pairwise_singleton _ x,
      fun a ha b hb => ?_⟩⟩
    · rw [List.map_append, List.mem_append, List.mem_append, h.mem]
      rfl
    · rcases List.mem_append.1 ha with ha | ha
      · exact hfirst a ha
      · rw [List.mem_singleton.1 ha]
        exact ⟨(t, x), by simp, hnow⟩
    · -- what was listed has its first token among those before
      obtain ⟨s, hs, hsfirst⟩ := h.first a ha
      have hsorted := r.toList_pairwise
      rw [hsplit, List.pairwise_append] at hsorted
      rw [List.mem_singleton.1 hb]
      exact ⟨s.1, t, hsfirst, hnow, hsorted.2.2 s hs _ List.mem_cons_self⟩

/-- The remaining entries are looked at. -/
theorem ListedUpTo.foldl (h : r.ListedUpTo seen found) (hsplit : r.tokens.toList = seen ++ rest) :
    r.ListedUpTo (seen ++ rest) ((rest.map Prod.snd).foldl
      (fun found x => if x ∈ found then found else found ++ [x]) found) := by
  induction rest generalizing seen found with
  | nil =>
    rw [List.append_nil]
    exact h
  | cons entry rest ih =>
    have hnext : seen ++ entry :: rest = (seen ++ [entry]) ++ rest := List.append_cons ..
    rw [hnext]
    exact ih (h.step hsplit) (hsplit.trans hnext)

/-- **Endpoints are listed in the order of their first tokens.** -/
theorem replicas_ordered (r : RingLayout) : r.replicas.Pairwise r.ListedBefore := by
  have hnone : r.ListedUpTo [] [] := ⟨fun a => Iff.rfl, fun a ha => absurd ha List.not_mem_nil, .nil⟩
  unfold replicas
  rw [values_eq_map_snd]
  exact (hnone.foldl rfl).ordered

end Listed

/-- Where a ring places a row that has the replicas `ids`. -/
structure Holds (r : RingLayout) (row : Bytes) (ids : List ReplicaId) : Prop where
  /-- The replicas are the first distinct endpoints on the walk from the token of the row. -/
  walk : ∀ t, r.ownerToken row = some t → ids = (r.met (r.walkFrom t)).eraseDups.take r.replication
  head : ∀ t, r.ownerToken row = some t → ids.head? = r.tokens[t]?
  nodup : ids.Nodup
  length : ids.length = min r.replication r.tokens.values.toFinset.card
  front : ∀ more ids', r.replication ≤ more →
    { r with replication := more }.replicasOf? row = some ids' → ids <+: ids'
  listed : ∀ id ∈ ids, id ∈ r.replicas

/-- Where a ring places a row. -/
structure Places (r : RingLayout) (row : Bytes) : Prop where
  owner : ∀ t, r.ownerToken row = some t ↔ r.Owns t row
  owned : r.tokens ≠ ∅ → ∃ t, r.ownerToken row = some t
  /-- A ring with tokens has replicas of the row unless it has no room for them. -/
  room : r.replicasOf? row = none ↔ maxReplicas < r.replication ∧ r.tokens ≠ ∅
  holds : ∀ ids, r.replicasOf? row = some ids → r.Holds row ids
  /-- An endpoint is listed if it owns a token, and once, in the order of first tokens. -/
  mem_replicas : ∀ id, id ∈ r.replicas ↔ ∃ t : Bytes, r.tokens[t]? = some id
  listedOnce : r.replicas.Nodup
  inOrder : r.replicas.Pairwise r.ListedBefore

section Places

variable {ids : List ReplicaId}

theorem replicasOf?_of_empty (h : r.tokens = ∅) : r.replicasOf? row = some [] := by
  unfold replicasOf?
  rw [ownerToken_of_empty h]

/-- The replicas of a row as those of its token. -/
theorem replicasOf?_of_ownerToken (ht : r.ownerToken row = some t) : r.replicasOf? row =
    if r.replication ≤ maxReplicas then some ((r.clockwise t).eraseDups.take r.replication)
    else none := by
  unfold replicasOf?
  rw [ht]
  dsimp only
  unfold replicasFrom?
  rw [firstDistinct_nil]

theorem eq_take_of_replicasOf? (hids : r.replicasOf? row = some ids)
    (ht : r.ownerToken row = some t) : ids = (r.clockwise t).eraseDups.take r.replication := by
  rw [replicasOf?_of_ownerToken ht] at hids
  split at hids
  · exact (Option.some.inj hids).symm
  · cases hids

/-- A ring with tokens has replicas of a row unless it has no room for them. -/
theorem replicasOf?_eq_none_iff :
    r.replicasOf? row = none ↔ maxReplicas < r.replication ∧ r.tokens ≠ ∅ := by
  by_cases hempty : r.tokens = ∅
  · rw [replicasOf?_of_empty hempty]
    exact ⟨nofun, fun h => absurd hempty h.2⟩
  · obtain ⟨t, ht⟩ := exists_ownerToken hempty row
    rw [replicasOf?_of_ownerToken ht]
    split
    · rename_i hroom
      exact ⟨nofun, fun h => absurd hroom (Nat.not_le.2 h.1)⟩
    · rename_i hroom
      exact ⟨fun _ => ⟨Nat.not_le.1 hroom, hempty⟩, fun _ => rfl⟩

/-- The replicas of a row on a ring with tokens. -/
theorem holds_of_ownerToken (hpos : 0 < r.replication) (ht : r.ownerToken row = some t) :
    r.Holds row ((r.clockwise t).eraseDups.take r.replication) := by
  have hmem : t ∈ r.tokens := (ownerToken_eq_some_iff.1 ht).1
  have hsame : ∀ t', r.ownerToken row = some t' → t' = t := fun t' ht' =>
    Option.some.inj (ht'.symm.trans ht)
  refine ⟨fun t' ht' => ?walk, fun t' ht' => ?head, (nodup_eraseDups _).sublist (List.take_sublist _ _),
    ?length, fun more ids' hmore hids' => ?front, fun id hid => ?listed⟩
  case walk => rw [hsame t' ht', clockwise_eq_walk hmem]
  case head =>
    rw [hsame t' ht']
    obtain ⟨id, hid⟩ := Option.isSome_iff_exists.1 (ExtTreeMap.mem_iff_isSome_getElem?.1 hmem)
    obtain ⟨before, after, hsplit, hbefore, -⟩ := exists_entries hid
    obtain ⟨k, hk⟩ := Nat.exists_eq_succ_of_ne_zero (Nat.ne_of_gt hpos)
    rw [clockwise_of_entries hsplit hbefore, hid, List.eraseDups_cons, hk]
    rfl
  case length =>
    rw [List.length_take, length_eraseDups]
    congr 2
    ext id
    rw [List.mem_toFinset, List.mem_toFinset, mem_clockwise_iff]
  case front =>
    have ht' : { r with replication := more }.ownerToken row = some t := ht
    rw [eq_take_of_replicasOf? hids' ht']
    exact List.take_prefix_take_left hmore
  case listed =>
    have hclockwise : id ∈ r.clockwise t := List.mem_eraseDups.1 (List.mem_of_mem_take hid)
    exact mem_replicas_iff.2 (mem_clockwise_iff.1 hclockwise)

/-- On a ring without tokens no row has replicas. -/
theorem holds_of_empty (h : r.tokens = ∅) (row : Bytes) : r.Holds row [] := by
  have hnone : ∀ t, r.ownerToken row ≠ some t := fun t ht => by
    rw [ownerToken_of_empty h] at ht
    cases ht
  have hvalues : r.tokens.values = [] := by
    rw [h]
    rfl
  refine ⟨fun t ht => absurd ht (hnone t), fun t ht => absurd ht (hnone t), List.nodup_nil, ?_,
    fun _ _ _ _ => List.nil_prefix, fun _ hid => absurd hid List.not_mem_nil⟩
  rw [hvalues]
  exact (Nat.min_zero _).symm

/-- **The replicas of a row are the first distinct endpoints on the walk from its token**: as many as the
ring promises, or all endpoints. A ring that promises more than it has room for gives none of a row that
has a token. -/
theorem placed (r : RingLayout) (hpos : 0 < r.replication) (row : Bytes) : r.Places row := by
  refine ⟨fun t => ownerToken_eq_some_iff, fun hne => exists_ownerToken hne row,
    replicasOf?_eq_none_iff, fun ids hids => ?_, fun id => mem_replicas_iff.trans mem_values_iff,
    r.nodup_replicas, r.replicas_ordered⟩
  by_cases hempty : r.tokens = ∅
  · rw [replicasOf?_of_empty hempty] at hids
    cases hids
    exact holds_of_empty hempty row
  · obtain ⟨t, ht⟩ := exists_ownerToken hempty row
    rw [eq_take_of_replicasOf? hids ht]
    exact holds_of_ownerToken hpos ht

/-- A row before the first of three tokens belongs to the last one. -/
theorem placed_threeTokens :
    0 < Ring.threeTokens.replication ∧ Ring.threeTokens.Places [32] :=
  ⟨Nat.two_pos, placed Ring.threeTokens.toRingLayout Nat.two_pos [32]⟩

/-- A ring with one endpoint that promises too many replicas has room for none. -/
theorem replicasOf?_boundless :
    0 < boundless.replication ∧ boundless.replicas = ["a"] ∧ boundless.replicasOf? [7] = none := by
  decide

end Places

end RingLayout

namespace Ring

variable {r : Ring} {row t : Bytes}

/-- The replicas of a row as those of its token. -/
theorem replicasOf_of_ownerToken (ht : r.ownerToken row = some t) :
    r.replicasOf row = (r.clockwise t).eraseDups.take r.replication := by
  unfold replicasOf
  rw [ht]
  exact RingLayout.firstDistinct_nil _ _

end Ring

end QuorumStore
