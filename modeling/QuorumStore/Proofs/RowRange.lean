import Mathlib.Data.Set.Basic
import Mathlib.Tactic.ByContra
import QuorumStore.RowRange

/-!
# Which rows a range contains

A range stands for the set of the rows that it contains. An empty lower bound needs no case of its
own, since the empty key is the smallest of all; an empty upper bound is none.

* `Bytes.successor_le_iff`: the successor of a key is the least key after it.
* `RowRange.isEmpty_iff_forall`: a range counts as empty exactly if it contains no row.
* `RowRange.contains_clamp`: clamping keeps exactly the rows between the bounds.
* `RowRange.clamp_spec`: what is known of the part that clamping leaves.
* `RowRange.contains_resumeAfter`: what a range contains behind a row.
* `RowRange.rows_exact`: **what is done with ranges is done with their sets of rows.**
-/

namespace QuorumStore

/-- A key is the successor of another or comes after it exactly if it comes after the other. -/
theorem Bytes.successor_le_iff {key other : Bytes} : key.successor ≤ other ↔ key < other := by
  unfold successor
  induction key generalizing other with
  | nil =>
    cases other with
    | nil => simp
    | cons b other =>
      have hzero : 0 < b ∨ 0 = b := by
        rcases Nat.eq_zero_or_pos b.toNat with hb | hb
        · exact Or.inr (UInt8.toNat_inj.1 hb.symm)
        · exact Or.inl (UInt8.lt_iff_toNat_lt.2 hb)
      simpa [List.cons_le_cons_iff] using hzero
  | cons a key ih =>
    cases other with
    | nil => simp
    | cons b other =>
      rw [List.cons_append, List.cons_lt_cons_iff, List.cons_le_cons_iff, ih]

namespace RowRange

variable {r part : RowRange} {row key start stop : Bytes}

theorem contains_iff :
    r.contains row = true ↔ r.start ≤ row ∧ (r.stop = [] ∨ row < r.stop) := by
  unfold contains isUnboundedAbove
  simp

theorem isEmpty_iff : r.isEmpty = true ↔ r.stop ≠ [] ∧ r.stop ≤ r.start := by
  unfold isEmpty isUnboundedAbove
  simp

/-- A range that is not empty contains its start. -/
theorem contains_start (h : r.isEmpty = false) : r.contains r.start = true := by
  have hopen : ¬ (r.stop ≠ [] ∧ r.stop ≤ r.start) := fun hc => by
    rw [isEmpty_iff.2 hc] at h
    exact absurd h (by decide)
  rw [contains_iff]
  refine ⟨List.le_refl _, ?_⟩
  by_cases hs : r.stop = []
  · exact Or.inl hs
  · exact Or.inr (List.not_le.1 fun hle => hopen ⟨hs, hle⟩)

/-- **A range counts as empty exactly if it contains no row.** -/
theorem isEmpty_iff_forall : r.isEmpty = true ↔ ∀ row, r.contains row = false := by
  constructor
  · intro h row
    obtain ⟨hstop, hle⟩ := isEmpty_iff.1 h
    rw [Bool.eq_false_iff]
    intro hrow
    obtain ⟨hstart, hlt⟩ := contains_iff.1 hrow
    rcases hlt with hnone | hlt
    · exact hstop hnone
    · exact List.lt_irrefl _ (List.lt_of_le_of_lt (List.le_trans hle hstart) hlt)
  · intro h
    by_contra hne
    have := contains_start (eq_false_of_ne_true hne)
    rw [h] at this
    exact absurd this (by decide)

theorem tighterStart_le {a b : Bytes} : tighterStart a b ≤ row ↔ a ≤ row ∧ b ≤ row := by
  unfold tighterStart
  split
  · rename_i hlt
    exact ⟨fun h => ⟨List.le_trans (List.le_of_lt hlt) h, h⟩, fun h => h.2⟩
  · rename_i hle
    exact ⟨fun h => ⟨h, List.le_trans (List.not_lt.1 hle) h⟩, fun h => h.1⟩

/-- A row is below the tighter of two stops exactly if it is below both, none being no bound. -/
theorem lt_tighterStop {a b : Bytes} :
    tighterStop a b = [] ∨ row < tighterStop a b ↔ (a = [] ∨ row < a) ∧ (b = [] ∨ row < b) := by
  unfold tighterStop
  by_cases ha : a = []
  · simp [ha]
  · by_cases hb : b = []
    · simp [ha, hb]
    · simp only [List.isEmpty_iff, ha, hb, if_false, false_or]
      split
      · rename_i hlt
        simp only [ha, false_or]
        exact ⟨fun h => ⟨h, List.lt_trans h hlt⟩, fun h => h.1⟩
      · rename_i hle
        simp only [hb, false_or]
        exact ⟨fun h => ⟨Std.lt_of_lt_of_le h (List.not_lt.1 hle), h⟩, fun h => h.2⟩

theorem contains_between :
    (between start stop).contains row = true ↔ start ≤ row ∧ (stop = [] ∨ row < stop) :=
  contains_iff

/-- **What clamping leaves**: the rows of the range between the bounds, of which there are some,
with the same columns and the same batch hint. -/
theorem clamp_spec (h : r.clamp start stop = some part) :
    part.columns = r.columns ∧ part.batchHint = r.batchHint ∧ part.contains part.start = true ∧
      ∀ row, part.contains row = true ↔
        r.contains row = true ∧ (between start stop).contains row = true := by
  unfold clamp at h
  simp only at h
  split at h
  · cases h
  · rename_i hsome
    obtain rfl := Option.some.inj h
    refine ⟨rfl, rfl, contains_start (eq_false_of_ne_true hsome), fun row => ?_⟩
    rw [contains_iff, contains_iff, contains_between, tighterStart_le, lt_tighterStop]
    exact and_and_and_comm

/-- Clamping leaves nothing only where no row of the range lies between the bounds. -/
theorem clamp_eq_none (h : r.clamp start stop = none) (row : Bytes) :
    ¬ (r.contains row = true ∧ (between start stop).contains row = true) := by
  unfold clamp at h
  simp only at h
  split at h
  · rename_i hempty
    have hno := isEmpty_iff_forall.1 hempty row
    rw [Bool.eq_false_iff] at hno
    intro hboth
    apply hno
    rw [contains_iff, contains_between] at hboth
    rw [contains_iff, tighterStart_le, lt_tighterStop]
    exact and_and_and_comm.1 hboth
  · cases h

/-- **Clamping keeps exactly the rows between the bounds.** -/
theorem contains_clamp : (∃ part, r.clamp start stop = some part ∧ part.contains row = true) ↔
    r.contains row = true ∧ (between start stop).contains row = true := by
  constructor
  · rintro ⟨part, hpart, hrow⟩
    exact ((clamp_spec hpart).2.2.2 row).1 hrow
  · intro hboth
    cases hclamp : r.clamp start stop with
    | none => exact absurd hboth (clamp_eq_none hclamp row)
    | some part => exact ⟨part, rfl, ((clamp_spec hclamp).2.2.2 row).2 hboth⟩

/-- Resumed behind a row that is not below its start, a range contains what it contained after that
row. -/
theorem contains_resumeAfter (hrow : r.start ≤ row) :
    (r.resumeAfter row).contains key = true ↔ r.contains key = true ∧ row < key := by
  rw [contains_iff, contains_iff]
  show row.successor ≤ key ∧ _ ↔ _
  rw [Bytes.successor_le_iff]
  constructor
  · exact fun ⟨hlt, hstop⟩ => ⟨⟨List.le_of_lt (List.lt_of_le_of_lt hrow hlt), hstop⟩, hlt⟩
  · exact fun ⟨⟨_, hstop⟩, hlt⟩ => ⟨hlt, hstop⟩

/-- The rows of a range. -/
def rows (r : RowRange) : Set Bytes := { row | r.contains row = true }

/-- The keys from `start` on that come before `stop`, where an empty `stop` is no bound. -/
def keysBetween (start stop : Bytes) : Set Bytes := { key | start ≤ key ∧ (stop = [] ∨ key < stop) }

theorem rows_eq_keysBetween (r : RowRange) : r.rows = keysBetween r.start r.stop :=
  Set.ext fun _ => contains_iff

theorem isEmpty_iff_rows_eq_empty : r.isEmpty = true ↔ r.rows = ∅ := by
  rw [isEmpty_iff_forall, Set.eq_empty_iff_forall_notMem]
  exact forall_congr' fun _ => (Bool.eq_false_iff).trans Iff.rfl

/-- **Clamping is intersection.** -/
theorem rows_clamp (h : r.clamp start stop = some part) :
    part.rows = r.rows ∩ keysBetween start stop :=
  Set.ext fun row => ((clamp_spec h).2.2.2 row).trans (and_congr_right' contains_between)

/-- Clamping leaves nothing exactly if the range has no row between the bounds. -/
theorem clamp_eq_none_iff :
    r.clamp start stop = none ↔ r.rows ∩ keysBetween start stop = ∅ := by
  constructor
  · intro h
    refine Set.eq_empty_iff_forall_notMem.2 fun row hrow => clamp_eq_none h row ?_
    exact ⟨hrow.1, contains_between.2 hrow.2⟩
  · intro hempty
    cases h : r.clamp start stop with
    | none => rfl
    | some part =>
      -- a part that is left contains its start
      have hstart : part.start ∈ part.rows := (clamp_spec h).2.2.1
      rw [rows_clamp h, hempty] at hstart
      exact hstart.elim

/-- **What is done with ranges is done with their sets of rows.** A range has the rows between its
bounds, and it counts as empty exactly if there are none. Clamping gives the rows that are between
the other bounds as well, and nothing exactly if there are none. The successor of a key is the least
key after it, and resuming behind a row that is not below the start gives the rows after it. -/
theorem rows_exact (r : RowRange) :
    r.rows = keysBetween r.start r.stop ∧
      (r.isEmpty = true ↔ r.rows = ∅) ∧
      (∀ start stop, (r.clamp start stop = none ↔ r.rows ∩ keysBetween start stop = ∅) ∧
        ∀ part, r.clamp start stop = some part → part.rows = r.rows ∩ keysBetween start stop) ∧
      (∀ key other : Bytes, key < other ↔ key.successor ≤ other) ∧
      ∀ row, r.start ≤ row → (r.resumeAfter row).rows = r.rows ∩ { key | row < key } := by
  refine ⟨r.rows_eq_keysBetween, isEmpty_iff_rows_eq_empty, fun start stop => ?_, ?_, ?_⟩
  · exact ⟨clamp_eq_none_iff, fun part => rows_clamp⟩
  · exact fun key other => Bytes.successor_le_iff.symm
  · exact fun row hrow => Set.ext fun key => contains_resumeAfter hrow

/-- Clamped to bounds that meet its own, a range of a key and its successor keeps the key; resumed
behind a row past its end it keeps nothing that it did not have. -/
theorem rows_exact_singleKey :
    (between [98] [98, 0]).clamp [97] [] = some (between [98] [98, 0]) ∧
      (between [98] [98, 0]).rows = (between [98] [98, 0]).rows ∩ keysBetween [97] [] ∧
      (between [98] [98, 0]).start ≤ [99] ∧
      ((between [98] [98, 0]).resumeAfter [99]).rows =
        (between [98] [98, 0]).rows ∩ { key | [99] < key } := by
  obtain ⟨-, -, hclamp, -, hresume⟩ := rows_exact (between [98] [98, 0])
  have hleft : (between [98] [98, 0]).clamp [97] [] = some (between [98] [98, 0]) := by decide
  exact ⟨hleft, (hclamp [97] []).2 _ hleft, by decide, hresume [99] (by decide)⟩

end RowRange

end QuorumStore
