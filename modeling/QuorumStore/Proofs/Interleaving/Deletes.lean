import QuorumStore.Proofs.Interleaving.Scans
import QuorumStore.Proofs.Quorum.Reads

/-!
# Deletes and late writes

A delete is answered once every replica of the row has applied it. A write may be answered before
that, and its other calls go on: one of them can reach its replica after the call of the delete, which
it has overtaken, and bring the version back. Nothing else does.

* `Overtaken`: the call of a write has reached a replica after the call of a delete.
* `deleted_of_answered`: an answered delete has been applied at every replica of the row.
* `overtaken_of_holds`: a replica that has a deleted version has been overtaken.
* `overtaken_few`: those that have been overtaken are not of the quorum of the write.
* `delete_final_unless_overtaken`: after a delete the version is nowhere else, and no read and no
  scan returns it from elsewhere.
-/

namespace QuorumStore

open Std Std.Do

/-- The slices of a range that contain a row have only replicas of the row. -/
def Placement.SlicesAgree (p : Placement) (range : RowRange) (row : Bytes) : Prop :=
  ∀ sub ∈ p.planRange range, sub.range.contains row = true →
    ∀ id ∈ sub.replicas, id ∈ p.replicasOf row

/-- On a ring they have all of them. -/
theorem Ring.slicesAgree (r : Ring) (range : RowRange) (row : Bytes) :
    r.placement.SlicesAgree range row := by
  intro sub hsub hin id hid
  rw [← Ring.replicasOf_of_mem_planRange hsub hin] at hid
  exact hid

namespace Interleaving

/-- No operation so far writes the version, apart from operation `i`. -/
def OnlyWriter (w : World) (i : Nat) (table : TableName) (cell : Cell) (ts : Timestamp) : Prop :=
  ∀ (k : Nat) (op : Operation), w.operations[k]? = some op → op.verb.Writes table cell ts → k = i

/-- Between two worlds the call of operation `i` that writes the version has reached a replica where
the call of operation `j` that deletes it had been applied before. -/
def Overtaken (c : Coordinator) (w w' : World) (i j : Nat) (table : TableName) (cell : Cell)
    (ts : Timestamp) (id : ReplicaId) : Prop :=
  ∃ w₁, Reaches c w w₁ ∧ Reaches c w₁ w' ∧
    (w₁.Applied c j id fun v _ => v.Deletes table cell ts) ∧
    (¬ w₁.Applied c i id fun v _ => v.Writes table cell ts) ∧
    w'.Applied c i id fun v _ => v.Writes table cell ts

variable {c : Coordinator} {w w' w₀ w₁ w₂ w₃ : World} {i j : Nat} {id : ReplicaId}
  {table : TableName} {cell : Cell} {ts : Timestamp}

theorem onlyWriter_of_step (hstep : Step c w w') (h : OnlyWriter w' i table cell ts) :
    OnlyWriter w i table cell ts := by
  intro k op hop hwrites
  obtain ⟨op', hop', hwrites'⟩ :=
    hstep.exists_operation (Q := fun v => v.Writes table cell ts) hop hwrites
  exact h k op' hop' hwrites'

theorem onlyWriter_of_reaches (h : Reaches c w w') (honly : OnlyWriter w' i table cell ts) :
    OnlyWriter w i table cell ts := by
  induction h with
  | refl => exact honly
  | tail _ hstep ih => exact ih (onlyWriter_of_step hstep honly)

theorem Overtaken.later (h : Overtaken c w w₁ i j table cell ts id) (hreach : Reaches c w₁ w') :
    Overtaken c w w' i j table cell ts id := by
  obtain ⟨w₂, hto, hfrom, hdeleted, hnot, happlied⟩ := h
  exact ⟨w₂, hto, hfrom.trans hreach, hdeleted, hnot, applied_of_reaches hreach happlied⟩

/-- **An answered delete has been applied at every replica of the row**, where there are no more of
them than the replication factor says. -/
theorem deleted_of_answered {α : Type} {v : Verb α} {a : α}
    (hsound : ∀ op ∈ w.operations, op.Sound c)
    (hplace : (c.placement.replicasOf cell.row).toFinset.card ≤ c.factors.replication)
    (hdeletes : v.Deletes table cell ts) (hans : w.Answered c j v a)
    (hid : id ∈ c.placement.replicasOf cell.row) :
    w.Applied c j id fun v _ => v.Deletes table cell ts := by
  obtain ⟨q, hq, hpolicy, u, hu, hrow, hcall⟩ :=
    Coordinator.exists_unit_of_deletes (c := c) hdeletes
  obtain ⟨parts, -, A, hsub, hcard, hA⟩ := applied_of_answered hsound hq hans hu
  rw [hrow] at hsub
  rw [hpolicy] at hcard
  -- a delete needs the whole replication factor, so its quorum is all replicas
  have hall := Finset.eq_of_subset_of_card_le hsub (hplace.trans hcard)
  obtain ⟨group, -, hunit, part, -, happlied⟩ := hA id (hall ▸ List.mem_toFinset.2 hid)
  exact happlied (fun v _ => v.Deletes table cell ts) (hcall group hunit)

/-- **A replica that has a deleted version has been overtaken.** By induction on the run since the
write was answered: what brings a version to a replica that has deleted it is a call that writes it,
and there is only one. -/
theorem overtaken_of_holds (hafter : w.operations.length ≤ j) (hreach : Reaches c w w')
    (honly : OnlyWriter w' i table cell ts)
    (hdeleted : w'.Applied c j id fun v _ => v.Deletes table cell ts)
    (hholds : (w'.stores id).Holds table cell ts) : Overtaken c w w' i j table cell ts id := by
  induction hreach with
  | refl => exact absurd hdeleted.lt_length (Nat.not_lt.2 hafter)
  | @tail w₁ w₂ hreach hstep ih =>
    have ih := ih (onlyWriter_of_step hstep honly)
    rcases hstep.inversion with ⟨hstores, happlied⟩ |
      ⟨k, op, hop, ticket, replica, verb, hcall, hnew, hstores, happlied⟩
    · rw [hstores] at hholds
      exact (ih ((happlied j id _).1 hdeleted) hholds).later (.single hstep)
    rw [hstores] at hholds
    by_cases hreplica : id = replica
    · subst hreplica
      rw [Function.update_self] at hholds
      rcases (happlied j id _).1 hdeleted with hbefore | ⟨-, -, a, hok, hdeletes⟩
      · rcases Store.of_holds_run hholds with hheld | ⟨hwrites, a, hok⟩
        · exact (ih hbefore hheld).later (.single hstep)
        · -- the call writes the version, so it is the one of the write
          have hverb := Coordinator.writes_of_mem_calls hcall hwrites
          obtain rfl := onlyWriter_of_step hstep honly k op hop hverb
          obtain ⟨q, hq, -⟩ := Coordinator.exists_unit_of_writes (c := c) hverb
          exact ⟨w₁, hreach, .single hstep, hbefore, not_applied_of_unserved hq hop hcall hnew,
            (happlied k id _).2 (Or.inr ⟨rfl, rfl, a, hok, hwrites⟩)⟩
      · exact absurd hholds (Store.not_holds_run_of_deletes hdeletes hok)
    · rw [Function.update_of_ne hreplica] at hholds
      rcases (happlied j id _).1 hdeleted with hbefore | ⟨-, hsame, -⟩
      · exact (ih hbefore hholds).later (.single hstep)
      · exact absurd hsame hreplica

/-- **Those that have been overtaken are not of the quorum of the write**, so they are few. -/
theorem overtaken_few {α : Type} {write : Verb α} {a : α} {S : Finset ReplicaId}
    (hsound : ∀ op ∈ w.operations, op.Sound c)
    (hplace : (c.placement.replicasOf cell.row).toFinset.card ≤ c.factors.replication)
    (hwrites : write.Writes table cell ts) (hwritten : w.Answered c i write a)
    (hsub : S ⊆ (c.placement.replicasOf cell.row).toFinset)
    (hS : ∀ id ∈ S, Overtaken c w w' i j table cell ts id) :
    S.card + c.factors.write ≤ c.factors.replication := by
  obtain ⟨A, hsubA, hcard, hA⟩ := written_of_answered hsound hwrites hwritten
  -- at a replica of the quorum the write had been applied before the delete was asked for
  have hdisjoint : Disjoint S A := by
    refine Finset.disjoint_left.2 fun id hid hidA => ?_
    obtain ⟨w₁, hto, -, -, hnot, -⟩ := hS id hid
    exact hnot (applied_of_reaches hto (hA id hidA))
  calc S.card + c.factors.write ≤ S.card + A.card := Nat.add_le_add_left hcard _
    _ = (S ∪ A).card := (Finset.card_union_of_disjoint hdisjoint).symm
    _ ≤ (c.placement.replicasOf cell.row).toFinset.card :=
      Finset.card_le_card (Finset.union_subset hsub hsubA)
    _ ≤ c.factors.replication := hplace

/-- **After a delete the version is only where a late call of the write has brought it.** A write of a
version has been answered, and no other operation is ever asked to write it; then a delete of the
version has been asked for and answered, and its row has no more replicas than the replication factor
says. From then on a replica of the row has the version only if it has been overtaken: if the call of
the write has reached it after that of the delete had been applied there. No more replicas can have
been than the write quorum leaves. And a read that is asked for after the delete was answered, or a
scan that begins then, returns the version only if some replica of the row has been overtaken. -/
theorem delete_final_unless_overtaken {α β : Type} {write : Verb α} {delete : Verb β} {a : α} {b : β}
    (hplace : (c.placement.replicasOf cell.row).toFinset.card ≤ c.factors.replication)
    (hempty : w₀.operations = []) (hfirst : Reaches c w₀ w₁)
    (hwrites : write.Writes table cell ts) (hwritten : w₁.Answered c i write a)
    (hafter : w₁.operations.length ≤ j) (hthen : Reaches c w₁ w₂)
    (hdeletes : delete.Deletes table cell ts) (hdeleted : w₂.Answered c j delete b)
    (hlater : Reaches c w₂ w₃) (honly : OnlyWriter w₃ i table cell ts) :
    (∀ id ∈ c.placement.replicasOf cell.row, (w₃.stores id).Holds table cell ts →
      Overtaken c w₁ w₃ i j table cell ts id) ∧
    (∀ S ⊆ (c.placement.replicasOf cell.row).toFinset,
      (∀ id ∈ S, Overtaken c w₁ w₃ i j table cell ts id) →
        S.card + c.factors.write ≤ c.factors.replication) ∧
    (∀ {γ : Type} (k : Nat) (read : Verb γ) (answer : γ), w₂.operations.length ≤ k →
      w₃.Answered c k read answer → read.Tells answer table cell ts →
        ∃ id ∈ c.placement.replicasOf cell.row, Overtaken c w₁ w₃ i j table cell ts id) ∧
    ∀ {m : Type → Type} [Monad m] {ps : PostShape.{0}} [WPMonad m ps] {σ τ : Type}
      [Cursor m σ (Row τ)] (read : RangeRead τ) (range : RowRange) (src : ScanSource m σ)
      (I : List SubRange → Assertion ps) (sent : List (List (Delivery τ))),
      c.placement.SlicesAgree range cell.row → read.table = table →
      Scans c w₂ w₃ read range src I sent →
        ∃ rows : List (Row τ), Drains c read range src I rows ∧
          ∀ row ∈ rows, row.key = cell.row → ∀ x, row.get? cell.column = some x →
            read.projection.Mentions x ts →
              ∃ id ∈ c.placement.replicasOf cell.row, Overtaken c w₁ w₃ i j table cell ts id := by
  have hsound₂ := sound_of_reaches hempty (hfirst.trans hthen)
  have hsound₃ := sound_of_reaches hempty ((hfirst.trans hthen).trans hlater)
  -- from the answer of the delete on, at any moment
  have hholds : ∀ {w : World} {id : ReplicaId}, Reaches c w₂ w → Reaches c w w₃ →
      id ∈ c.placement.replicasOf cell.row → (w.stores id).Holds table cell ts →
        Overtaken c w₁ w₃ i j table cell ts id := by
    intro w id hto hfrom hid hheld
    have hdone := applied_of_reaches hto (deleted_of_answered hsound₂ hplace hdeletes hdeleted hid)
    exact (overtaken_of_holds hafter (hthen.trans hto) (onlyWriter_of_reaches hfrom honly) hdone
      hheld).later hfrom
  refine ⟨fun id hid hheld => hholds hlater .refl hid hheld, fun S hsub hS => ?_, ?_, ?_⟩
  · exact overtaken_few (sound_of_reaches hempty hfirst) hplace hwrites hwritten hsub hS
  · intro γ k read answer hk hans htells
    obtain ⟨q, served, seen, hq, hop, hexec⟩ := hans
    obtain ⟨parts, rfl, hparts⟩ :=
      moments_of_answered hlater hk hsound₃ hq ⟨q, served, seen, hq, hop, hexec⟩
    obtain ⟨part, hpart, htold⟩ := Coordinator.exists_tells_of_foldl hq htells
    obtain ⟨id, group, w, hplan, hto, hfrom, hok⟩ := hparts part hpart
    obtain ⟨hid, hheld⟩ := Coordinator.holds_of_tells hq hplan hok htold
    exact ⟨id, hid, hholds hto hfrom hid hheld⟩
  · intro m _ ps _ σ τ _ read range src I sent hagree htable hscan
    obtain ⟨rows, hdrained, hcollect⟩ := hscan.drain
    refine ⟨rows, hcollect, fun row hrow hkey x hx hmentions => ?_⟩
    obtain ⟨sub, hsub, hin, id, hid, w, hto, hfrom, hheld⟩ :=
      hscan.exists_holder hdrained hrow hkey hx hmentions
    rw [htable] at hheld
    exact ⟨id, hagree sub hsub hin id hid, hholds hto hfrom (hagree sub hsub hin id hid) hheld⟩

section TwoTokens

/-- Two replicas of every row, of which one makes a write quorum. -/
def lenient : Coordinator := .twoTokens
  { replication := 2, read := 2, write := 1
    read_pos := Nat.two_pos, read_le := Nat.one_lt_two
    write_pos := Nat.one_pos, write_le := Nat.two_pos }

/-- A delete of the version that is written. -/
def lenientDelete : Verb Unit := .delete "t" [(⟨[1], [2]⟩, 5)]

/-- A later read of all timestamps of the cell. -/
def lenientStamps : Verb (ExtTreeMap Cell (ExtTreeSet Timestamp)) :=
  .getAllTimestamps "t" ((∅ : ExtTreeSet Cell).insert ⟨[1], [2]⟩) 9

/-- What each replica is asked to read. -/
def lenientStampsCall : Verb (ExtTreeMap Cell (ExtTreeSet Timestamp)) :=
  .getAllTimestamps "t" (ExtTreeSet.ofList [⟨[1], [2]⟩] compare) 9

/-- The write is answered once it has reached `a`. The delete reaches both replicas and is answered.
Then the call of the write reaches `b`. -/
theorem late_write : ∃ w₁, Reaches lenient trioStart w₁ ∧ w₁.Answered lenient 0 trioPut () ∧
    w₁.operations.length ≤ 1 ∧ ∃ w₂, Reaches lenient w₁ w₂ ∧
    w₂.Answered lenient 1 lenientDelete () ∧ w₂.operations.length ≤ 2 ∧
    ∃ w₃ answer, Reaches lenient w₂ w₃ ∧ OnlyWriter w₃ 0 "t" ⟨[1], [2]⟩ 5 ∧
    (w₃.stores "b").Holds "t" ⟨[1], [2]⟩ 5 ∧ w₃.Answered lenient 2 lenientStamps answer ∧
    lenientStamps.Tells answer "t" ⟨[1], [2]⟩ 5 := by
  have hput : ∀ call ∈ [(0, "a", trioPutCall), (1, "b", trioPutCall)],
      call ∈ lenient.calls trioPut := fun call h => h
  have hdelete : ∀ call ∈ [(0, "a", lenientDelete), (1, "b", lenientDelete)],
      call ∈ lenient.calls lenientDelete := fun call h => h
  have hstamps : ∀ call ∈ [(0, "a", lenientStampsCall), (1, "b", lenientStampsCall)],
      call ∈ lenient.calls lenientStamps := fun call h => h
  refine ⟨_, .tail (.tail (.tail .refl (.ask trioPut))
    (.serve 0 _ 0 "a" trioPutCall rfl (hput _ (.head _)) (by decide)))
    (.learn 0 _ _ rfl (.head _) (by decide)), ⟨_, _, _, rfl, rfl, rfl⟩, by decide, ?_⟩
  -- the delete, while the call of the write to `b` is still under way
  refine ⟨_, .tail (.tail (.tail (.tail (.tail .refl (.ask lenientDelete))
    (.serve 1 _ 0 "a" lenientDelete rfl (hdelete _ (.head _)) (by decide)))
    (.serve 1 _ 1 "b" lenientDelete rfl (hdelete _ (.tail _ (.head _))) (by decide)))
    (.learn 1 _ _ rfl (.head _) (by decide)))
    (.learn 1 _ _ rfl (.tail _ (.head _)) (by decide)), ⟨_, _, _, rfl, rfl, rfl⟩, by decide, ?_⟩
  -- the call of the write reaches `b`, and then the cell is read
  refine ⟨_, _, .tail (.tail (.tail (.tail (.tail (.tail .refl
    (.serve 0 _ 1 "b" trioPutCall rfl (hput _ (.tail _ (.head _))) (by decide)))
    (.ask lenientStamps))
    (.serve 2 _ 0 "a" lenientStampsCall rfl (hstamps _ (.head _)) (by decide)))
    (.serve 2 _ 1 "b" lenientStampsCall rfl (hstamps _ (.tail _ (.head _))) (by decide)))
    (.learn 2 _ _ rfl (.head _) (by decide)))
    (.learn 2 _ _ rfl (.tail _ (.head _)) (by decide)), ?_, ?_, ⟨_, _, _, rfl, rfl, rfl⟩, ?_⟩
  · intro k op hop hwrites
    match k, hop with
    | 0, _ => rfl
    | 1, hop =>
      obtain rfl := Option.some.inj hop
      exact hwrites.elim
    | 2, hop =>
      obtain rfl := Option.some.inj hop
      exact hwrites.elim
  · unfold Store.Holds
    decide +kernel
  · exact ⟨rfl, _, rfl, by decide⟩

/-- **A deleted version can come back**: the write and then the delete have been answered, nothing else
writes the version, and yet a replica has it afterwards and a later read returns it. -/
theorem deleted_version_returns : ∃ (c : Coordinator) (w₀ w₁ w₂ w₃ : World)
    (answer : ExtTreeMap Cell (ExtTreeSet Timestamp)),
    (c.placement.replicasOf [1]).toFinset.card ≤ c.factors.replication ∧ w₀.operations = [] ∧
    Reaches c w₀ w₁ ∧ w₁.Answered c 0 trioPut () ∧ w₁.operations.length ≤ 1 ∧ Reaches c w₁ w₂ ∧
    w₂.Answered c 1 lenientDelete () ∧ w₂.operations.length ≤ 2 ∧ Reaches c w₂ w₃ ∧
    OnlyWriter w₃ 0 "t" ⟨[1], [2]⟩ 5 ∧
    (∃ id ∈ c.placement.replicasOf [1], (w₃.stores id).Holds "t" ⟨[1], [2]⟩ 5) ∧
    w₃.Answered c 2 lenientStamps answer ∧ lenientStamps.Tells answer "t" ⟨[1], [2]⟩ 5 := by
  obtain ⟨w₁, hfirst, hwritten, hafter, w₂, hthen, hdeleted, hlength, w₃, answer, hlater, honly, hheld,
    hread, htells⟩ := late_write
  exact ⟨lenient, trioStart, w₁, w₂, w₃, answer, by decide, rfl, hfirst, hwritten, hafter, hthen,
    hdeleted, hlength, hlater, honly, ⟨"b", by decide, hheld⟩, hread, htells⟩

/-- The replica that has the version has been overtaken, and it is the only one. -/
theorem delete_final_unless_overtaken_lenient : ∃ (w₁ w₃ : World) (rows : List (Row Value)),
    Reaches lenient w₁ w₃ ∧ (w₃.stores "b").Holds "t" ⟨[1], [2]⟩ 5 ∧
    Overtaken lenient w₁ w₃ 0 1 "t" ⟨[1], [2]⟩ 5 "b" ∧
    (∀ S ⊆ ({"a", "b"} : Finset ReplicaId),
      (∀ id ∈ S, Overtaken lenient w₁ w₃ 0 1 "t" ⟨[1], [2]⟩ 5 id) → S.card ≤ 1) ∧
    Drains lenient ⟨.latest, "t", 9⟩ {} (w₃.source ⟨.latest, "t", 9⟩ fun id => id = "b")
      (fun _ => ⌜True⌝) rows ∧
    ∀ row ∈ rows, row.key = [1] → ∀ v : Value, row.get? [2] = some v → v.timestamp = 5 →
      ∃ id ∈ lenient.placement.replicasOf [1],
        Overtaken lenient w₁ w₃ 0 1 "t" ⟨[1], [2]⟩ 5 id := by
  obtain ⟨w₁, hfirst, hwritten, hafter, w₂, hthen, hdeleted, -, w₃, answer, hlater, honly, hheld, -⟩ :=
    late_write
  have hwrites : trioPut.Writes "t" ⟨[1], [2]⟩ 5 := ⟨rfl, by decide, rfl⟩
  have hdeletes : lenientDelete.Deletes "t" ⟨[1], [2]⟩ 5 := ⟨rfl, by decide⟩
  have hplace : (lenient.placement.replicasOf [1]).toFinset.card ≤ lenient.factors.replication := by
    decide
  have hreplicas : (lenient.placement.replicasOf [1]).toFinset = {"a", "b"} := by decide
  have hagree : lenient.placement.SlicesAgree {} [1] := Ring.slicesAgree _ {} [1]
  obtain ⟨hholders, hfew, -, hscans⟩ := delete_final_unless_overtaken hplace rfl hfirst hwrites
    hwritten hafter hthen hdeletes hdeleted hlater honly
  have hstay : Reaches lenient w₃ w₃ := .refl
  obtain ⟨rows, hdrains, hrows⟩ := hscans _ _ _ _ _ hagree rfl
    (scans_source hlater hstay ⟨.latest, "t", 9⟩ {} fun id => id = "b")
  refine ⟨w₁, w₃, rows, hthen.trans hlater, hheld, hholders "b" (by decide) hheld, ?_, hdrains, hrows⟩
  intro S hsub hS
  exact Nat.le_of_succ_le_succ (hfew S (hreplicas ▸ hsub) hS)

end TwoTokens

end Interleaving

end QuorumStore
