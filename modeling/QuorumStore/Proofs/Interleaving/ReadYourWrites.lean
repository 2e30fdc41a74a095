import QuorumStore.Proofs.Interleaving.Versions

/-!
# Reads see the writes before them

A write that was answered has been applied at a write quorum of the row's replicas, where the
version stays. A later read is merged from the answers of a read quorum. The two quorums meet, and a
replica in both has answered the read with the version or a later one.

* `written_of_answered`: the replicas behind a write.
* `shown_of_answered`: the replicas behind a read that shows nothing late enough.
* `read_your_writes`: there can be no such read.
-/

namespace QuorumStore.Interleaving

open Std

variable {c : Coordinator} {w w₀ w₁ w₂ : World} {i j : Nat} {α β : Type} {write : Verb α}
  {read : Verb β} {a : α} {b : β} {table : TableName} {cell : Cell} {ts t : Timestamp}

/-- An answered write has been applied at a write quorum of the row's replicas. -/
theorem written_of_answered (hsound : ∀ op ∈ w.operations, op.Sound c)
    (hwrites : write.Writes table cell ts) (hans : w.Answered c i write a) :
    ∃ A ⊆ (c.placement.replicasOf cell.row).toFinset, c.factors.write ≤ A.card ∧
      ∀ id ∈ A, w.Applied c i id fun v _ => v.Writes table cell ts := by
  obtain ⟨q, hq, hpolicy, u, hu, hrow, hcall⟩ :=
    Coordinator.exists_unit_of_writes (c := c) hwrites
  obtain ⟨parts, -, A, hsub, hcard, hA⟩ := applied_of_answered hsound hq hans hu
  rw [hrow] at hsub
  rw [hpolicy] at hcard
  refine ⟨A, hsub, hcard, fun id hid => ?_⟩
  obtain ⟨group, -, hunit, part, -, happlied⟩ := hA id hid
  exact happlied (fun v _ => v.Writes table cell ts) (hcall group hunit)

/-- An answered read either shows the cell late enough, or has been applied at a read quorum of the
row's replicas none of which showed it late enough. -/
theorem shown_of_answered (ts : Timestamp) (hsound : ∀ op ∈ w.operations, op.Sound c)
    (hreads : read.ReadsAt table cell t) (hans : w.Answered c j read b) : read.Shows b cell ts ∨
    ∃ B ⊆ (c.placement.replicasOf cell.row).toFinset, c.factors.read ≤ B.card ∧
      ∀ id ∈ B, w.Applied c j id fun v a => v.ReadsAt table cell t ∧ ¬ v.Shows a cell ts := by
  by_cases hshows : read.Shows b cell ts
  · exact Or.inl hshows
  obtain ⟨q, hq, hpolicy, u, hu, hrow, hcall⟩ :=
    Coordinator.exists_unit_of_readsAt (c := c) hreads
  obtain ⟨parts, rfl, B, hsub, hcard, hB⟩ := applied_of_answered hsound hq hans hu
  rw [hrow] at hsub
  rw [hpolicy] at hcard
  refine Or.inr ⟨B, hsub, hcard, fun id hid => ?_⟩
  obtain ⟨group, hkeys, hunit, part, hpart, happlied⟩ := hB id hid
  refine happlied (fun v a => v.ReadsAt table cell t ∧ ¬ v.Shows a cell ts)
    ⟨hcall group hkeys hunit, fun hpartShows => hshows ?_⟩
  -- what a part shows the whole answer shows
  exact Coordinator.shows_foldl hq hreads
    (Or.inr ⟨part, hpart, (Coordinator.shows_call hq group).1 hpartShows⟩)

/-- **Reads see the writes before them.** Where a read and a write quorum together exceed the
replication factor, and the row of the cell has no more replicas than that: if a write of the cell
has been answered, and no operation is asked to remove what it wrote, then every read of the cell
at a later time that is asked for after that and is answered has the cell at the timestamp of the
write or later. -/
theorem read_your_writes (hquorum : c.factors.replication < c.factors.read + c.factors.write)
    (hplace : (c.placement.replicasOf cell.row).toFinset.card ≤ c.factors.replication)
    (hempty : w₀.operations = []) (hfirst : Reaches c w₀ w₁) (hthen : Reaches c w₁ w₂)
    (hspared : Spared w₂ table cell ts)
    (hwrites : write.Writes table cell ts) (hwritten : w₁.Answered c i write a)
    (hlater : w₁.operations.length ≤ j) (hreads : read.ReadsAt table cell t) (hts : ts < t)
    (hread : w₂.Answered c j read b) : read.Shows b cell ts := by
  have hspared₁ := spared_of_reaches hthen hspared
  obtain ⟨A, hsubA, hcardA, hA⟩ :=
    written_of_answered (sound_of_reaches hempty hfirst) hwrites hwritten
  have hsound := sound_of_reaches hempty (hfirst.trans hthen)
  rcases shown_of_answered ts hsound hreads hread with hshows | ⟨B, hsubB, hcardB, hB⟩
  · exact hshows
  -- a replica of both quorums has had the version since the write was answered
  obtain ⟨id, hidA, hidB⟩ := exists_common hplace hsubA hsubB (by omega)
  have hholds := holds_of_applied hempty hfirst hspared₁ (hA id hidA)
  refine absurd (hB id hidB) (not_applied_later hthen hspared hholds hlater ?_)
  intro s _ v a hs hok hbad
  exact hbad.2 (Store.stamp?_of_holds hbad.1 hts hs hok)

section Trio

/-- A write of one cell. -/
def trioPut : Verb Unit := .put "t" ((∅ : ExtTreeMap Cell Bytes).insert ⟨[1], [2]⟩ [7]) 5

/-- A later read of the cell. -/
def trioGet : Verb (ExtTreeMap Cell Value) :=
  .get "t" ((∅ : ExtTreeMap Cell Timestamp).insert ⟨[1], [2]⟩ 9)

/-- What each replica is asked to write. -/
def trioPutCall : Verb Unit := .put "t" (ExtTreeMap.ofList [(⟨[1], [2]⟩, [7])] compare) 5

/-- What each replica is asked to read. -/
def trioGetCall : Verb (ExtTreeMap Cell Value) :=
  .get "t" (ExtTreeMap.ofList [(⟨[1], [2]⟩, 9)] compare)

/-- The cell is written at the replicas `a` and `b`, and read from `b` and `c`; the answer of `c`,
which has not got it, comes first. -/
theorem read_your_writes_trio : ∃ w₁, Reaches trio trioStart w₁ ∧ w₁.Answered trio 0 trioPut () ∧
    ∃ w₂, Reaches trio w₁ w₂ ∧ ∃ b, w₂.Answered trio 1 trioGet b ∧ trioGet.Shows b ⟨[1], [2]⟩ 5 := by
  have hput : ∀ call ∈ [(0, "a", trioPutCall), (1, "b", trioPutCall)], call ∈ trio.calls trioPut :=
    fun call h => List.mem_append_left [(2, "c", trioPutCall)] h
  have hget : ∀ call ∈ [(1, "b", trioGetCall), (2, "c", trioGetCall)], call ∈ trio.calls trioGet :=
    fun call h => List.mem_cons_of_mem (0, "a", trioGetCall) h
  have hwrites : trioPut.Writes "t" ⟨[1], [2]⟩ 5 := ⟨rfl, by decide, rfl⟩
  have hreads : trioGet.ReadsAt "t" ⟨[1], [2]⟩ 9 := ⟨rfl, rfl⟩
  have hrun : ∃ w₁, Reaches trio trioStart w₁ ∧ w₁.Answered trio 0 trioPut () ∧
      w₁.operations.length ≤ 1 ∧ ∃ w₂, Reaches trio w₁ w₂ ∧ Spared w₂ "t" ⟨[1], [2]⟩ 5 ∧
      ∃ b, w₂.Answered trio 1 trioGet b := by
    refine ⟨_, .tail (.tail (.tail (.tail (.tail .refl (.ask trioPut))
      (.serve 0 _ 0 "a" trioPutCall rfl (hput _ (.head _)) (by decide)))
      (.serve 0 _ 1 "b" trioPutCall rfl (hput _ (.tail _ (.head _))) (by decide)))
      (.learn 0 _ _ rfl (.head _) (by decide)))
      (.learn 0 _ _ rfl (.tail _ (.head _)) (by decide)), ⟨_, _, _, rfl, rfl, rfl⟩, by decide, ?_⟩
    refine ⟨_, .tail (.tail (.tail (.tail (.tail .refl (.ask trioGet))
      (.serve 1 _ 2 "c" trioGetCall rfl (hget _ (.tail _ (.head _))) (by decide)))
      (.serve 1 _ 1 "b" trioGetCall rfl (hget _ (.head _)) (by decide)))
      (.learn 1 _ _ rfl (.head _) (by decide)))
      (.learn 1 _ _ rfl (.tail _ (.head _)) (by decide)), ?_, _, ⟨_, _, _, rfl, rfl, rfl⟩⟩
    exact List.forall_mem_cons.2 ⟨trivial, List.forall_mem_singleton.2 trivial⟩
  obtain ⟨w₁, hfirst, hwritten, hlater, w₂, hthen, hspared, b, hread⟩ := hrun
  refine ⟨w₁, hfirst, hwritten, w₂, hthen, b, hread, ?_⟩
  exact read_your_writes (by decide) (by decide) rfl hfirst hthen hspared hwrites hwritten hlater
    hreads (by decide) hread

end Trio

end QuorumStore.Interleaving
