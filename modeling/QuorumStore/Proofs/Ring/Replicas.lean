import QuorumStore.Placement.Ring
import Std.Data.DTreeMap.Internal.WF.Lemmas

/-!
# The endpoints of a ring

* `firstDistinct_full_or_all`: a walk finds as many as it looks for, or all there are.
* `RingLayout.mem_replicas_iff`: the endpoints of a ring are those that own a token.
* `RingLayout.nodup_replicas`, `Ring.nodup_replicasOf`: none is listed twice, neither of the ring nor of a
  row.
* `Ring.mem_replicas_of_mem_replicasFrom`, `Ring.mem_replicas_of_mem_replicasOf`: the replicas of a
  token or a row are endpoints of the ring.
* `Ring.full_or_all`: a row has the replicas that the ring promises, or all endpoints.
-/

namespace QuorumStore

open Std

theorem values_eq_map_snd {κ α : Type} [Ord κ] [TransOrd κ] (m : ExtTreeMap κ α) :
    m.values = m.toList.map Prod.snd := by
  obtain ⟨⟨q⟩⟩ := m
  induction q using Quotient.inductionOn with
  | h t =>
    change t.inner.values = (DTreeMap.Internal.Impl.Const.toList t.inner).map Prod.snd
    rw [DTreeMap.Internal.Impl.values_eq_map_snd,
      DTreeMap.Internal.Impl.Const.toList_eq_toListModel_map, List.map_map]
    rfl

section Walk

variable {id : ReplicaId}

theorem mem_of_mem_firstDistinct {n : Nat} {found l : List ReplicaId}
    (h : id ∈ firstDistinct n found l) : id ∈ found ∨ id ∈ l := by
  induction l generalizing found with
  | nil => exact Or.inl h
  | cons x rest ih =>
    unfold firstDistinct at h
    split at h
    · exact Or.inl h
    · split at h
      · exact (ih h).imp_right (List.mem_cons_of_mem x)
      · rcases ih h with hfound | hrest
        · rcases List.mem_append.1 hfound with hold | hnew
          · exact Or.inl hold
          · exact Or.inr (List.mem_cons.2 (Or.inl (List.mem_singleton.1 hnew)))
        · exact Or.inr (List.mem_cons_of_mem x hrest)

theorem nodup_firstDistinct (n : Nat) {found l : List ReplicaId} (hfound : found.Nodup) :
    (firstDistinct n found l).Nodup := by
  induction l generalizing found with
  | nil => exact hfound
  | cons x rest ih =>
    unfold firstDistinct
    split
    · exact hfound
    · split
      · exact ih hfound
      · rename_i hnew
        refine ih (List.nodup_append.2 ⟨hfound, List.pairwise_singleton _ x, fun a ha b hb => ?_⟩)
        rw [List.mem_singleton.1 hb]
        rintro rfl
        exact hnew ha

/-- A walk that finds fewer distinct members than it looks for has found all there are. -/
theorem firstDistinct_full_or_all {n : Nat} {found l : List ReplicaId} (hle : found.length ≤ n) :
    (firstDistinct n found l).length = n ∨
      ∀ x, x ∈ found ∨ x ∈ l → x ∈ firstDistinct n found l := by
  induction l generalizing found with
  | nil => exact Or.inr fun x hx => hx.resolve_right List.not_mem_nil
  | cons y rest ih =>
    unfold firstDistinct
    split
    · rename_i hfull
      exact Or.inl hfull
    · rename_i hopen
      split
      · rename_i hold
        refine (ih hle).imp_right fun hall x hx => hall x ?_
        rcases hx with hfound | hx
        · exact Or.inl hfound
        · rcases List.mem_cons.1 hx with rfl | hrest
          · exact Or.inl hold
          · exact Or.inr hrest
      · have hle' : (found ++ [y]).length ≤ n := by
          rw [List.length_append, List.length_singleton]
          omega
        refine (ih hle').imp_right fun hall x hx => hall x ?_
        rw [List.mem_append, List.mem_singleton, or_assoc]
        rwa [List.mem_cons] at hx

end Walk

namespace RingLayout

variable {r : RingLayout} {id : ReplicaId} {token : Bytes}

theorem mem_clockwise_iff : id ∈ r.clockwise token ↔ id ∈ r.tokens.values := by
  unfold clockwise
  rw [values_eq_map_snd]
  -- the walk is all of the tokens, begun elsewhere
  have hperm : (r.tokens.toList.dropWhile (·.1 < token) ++
      r.tokens.toList.takeWhile (·.1 < token)).Perm r.tokens.toList := by
    exact List.perm_append_comm.trans (.of_eq List.takeWhile_append_dropWhile)
  exact (hperm.map Prod.snd).mem_iff

/-- What is listed before is listed, and nothing twice. -/
theorem foldl_distinct (l found : List ReplicaId) (hfound : found.Nodup) :
    (∀ x, x ∈ l.foldl (fun found x => if x ∈ found then found else found ++ [x]) found ↔
      x ∈ found ∨ x ∈ l) ∧
    (l.foldl (fun found x => if x ∈ found then found else found ++ [x]) found).Nodup := by
  induction l generalizing found with
  | nil => exact ⟨fun x => by simp, hfound⟩
  | cons y l ih =>
    rw [List.foldl_cons]
    by_cases hy : y ∈ found
    · rw [if_pos hy]
      obtain ⟨hmem, hnodup⟩ := ih found hfound
      refine ⟨fun x => ?_, hnodup⟩
      rw [hmem, List.mem_cons]
      constructor
      · exact Or.imp_right Or.inr
      · rintro (hx | rfl | hx)
        · exact Or.inl hx
        · exact Or.inl hy
        · exact Or.inr hx
    · rw [if_neg hy]
      have hnext : (found ++ [y]).Nodup :=
        List.nodup_append.2 ⟨hfound, List.pairwise_singleton _ y, fun a ha b hb => by
          rw [List.mem_singleton.1 hb]
          rintro rfl
          exact hy ha⟩
      obtain ⟨hmem, hnodup⟩ := ih (found ++ [y]) hnext
      refine ⟨fun x => ?_, hnodup⟩
      rw [hmem, List.mem_append, List.mem_singleton, List.mem_cons, or_assoc]

/-- **The endpoints of a ring** are those that own a token. -/
theorem mem_replicas_iff : id ∈ r.replicas ↔ id ∈ r.tokens.values := by
  unfold replicas
  rw [(foldl_distinct r.tokens.values [] List.nodup_nil).1 id]
  simp

theorem nodup_replicas (r : RingLayout) : r.replicas.Nodup :=
  (foldl_distinct r.tokens.values [] List.nodup_nil).2

end RingLayout

namespace Ring

open RingLayout

variable {r : Ring} {id : ReplicaId} {token row : Bytes}

theorem mem_replicas_of_mem_replicasFrom (h : id ∈ r.replicasFrom token) : id ∈ r.replicas := by
  unfold replicasFrom at h
  rw [mem_replicas_iff]
  exact mem_clockwise_iff.1 ((mem_of_mem_firstDistinct h).resolve_left List.not_mem_nil)

theorem mem_replicas_of_mem_replicasOf (h : id ∈ r.replicasOf row) : id ∈ r.replicas := by
  unfold replicasOf at h
  split at h
  · cases h
  · exact mem_replicas_of_mem_replicasFrom h

/-- A row is on a replica once. -/
theorem nodup_replicasOf (r : Ring) (row : Bytes) : (r.replicasOf row).Nodup := by
  unfold replicasOf
  split
  · exact List.nodup_nil
  · exact nodup_firstDistinct _ List.nodup_nil

/-- **A row has as many replicas as the ring promises, or all endpoints of the ring.** -/
theorem full_or_all (r : Ring) (row : Bytes) :
    (r.replicasOf row).length = r.replication ∨ ∀ id ∈ r.replicas, id ∈ r.replicasOf row := by
  unfold replicasOf
  split
  · rename_i hnone
    -- without a token there is no endpoint either
    have hlast : r.tokenList.getLast? = none := by
      unfold ownerToken at hnone
      exact (Option.or_eq_none_iff.1 hnone).2
    have hkeys : r.tokens.toList.map Prod.fst = [] := by
      rw [ExtTreeMap.map_fst_toList_eq_keys]
      exact List.getLast?_eq_none_iff.1 hlast
    refine Or.inr fun id hid => ?_
    rw [mem_replicas_iff, values_eq_map_snd, List.map_eq_nil_iff.1 hkeys] at hid
    exact hid
  · rename_i token _
    refine (firstDistinct_full_or_all (Nat.zero_le _)).imp_right fun hall id hid => ?_
    exact hall id (Or.inr (mem_clockwise_iff.2 (mem_replicas_iff.1 hid)))

end Ring

end QuorumStore
