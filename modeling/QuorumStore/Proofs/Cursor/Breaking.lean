import QuorumStore.Cluster.Replica
import QuorumStore.Proofs.Triple

/-!
# Cursors that break down

A cursor that breaks down lets a number of reads through. The number is one of reads, not of items:
the read that finds the end of the sequence, and every read after it, uses up one as well. So a
sequence that is as long as the number fails after that many items, while a shorter one, which has
given all its items, fails too if it is read often enough after its end.

* `Cursor.answers`, `Cursor.answersOf`: the answers to a number of reads, and those of a sequence.
* `Cursor.Exhausts`: cursors that give their items and then nothing any more.
* `Breaking.answers_eq`: reading a cursor that breaks down is reading the cursor, and then failing.
* `Replica.answers_cursor`: what the cursors of a replica answer.
* `Breaking.answers_exact`: **what a cursor that breaks down answers, and when that is what one would
  expect of a cursor that fails after a number of items.**
-/

namespace QuorumStore

open Std Std.Do

namespace Cursor

/-- The answers to a number of reads, one after the other. -/
def answers {m : Type → Type} [Monad m] {σ α : Type} [Cursor m σ α] :
    Nat → σ → m (List (Except Failure (Option α)) × σ)
  | 0, c => return ([], c)
  | calls + 1, c => do
    let (answer, c) ← next c
    let (rest, c) ← answers calls c
    return (answer :: rest, c)

/-- A map between cursors that is kept by reads is kept by any number of them. -/
theorem answers_map {m : Type → Type} [Monad m] [LawfulMonad m] {σ σ' α : Type} [Cursor m σ α]
    [Cursor m σ' α] {f : σ → σ'}
    (hf : ∀ c, (next (f c) : m _) = Prod.map id f <$> (next c : m _)) (calls : Nat) (c : σ) :
    (answers calls (f c) : m _) = Prod.map id f <$> (answers calls c : m _) := by
  induction calls generalizing c with
  | zero => simp [answers]
  | succ calls ih => simp [answers, hf, ih]

variable {α : Type}

/-- The answers to a number of reads of a sequence: its items in order, and nothing any more once all
are given. -/
def answersOf (items : List α) (calls : Nat) : List (Except Failure (Option α)) :=
  (items.take calls).map (fun a => .ok (some a)) ++ List.replicate (calls - items.length) (.ok none)

/-- The answers of a cursor that fails after a number of items: the items up to that number and then
the failure, or, if there are fewer, what the sequence answers by itself. -/
def answersFailingAfter (items : List α) (limit : Nat) (failure : Failure) (calls : Nat) :
    List (Except Failure (Option α)) :=
  if limit ≤ items.length then
    answersOf items (min calls limit) ++ List.replicate (calls - limit) (.error failure)
  else answersOf items calls

theorem error_not_mem_answersOf (items : List α) (calls : Nat) (failure : Failure) :
    .error failure ∉ answersOf items calls := by
  unfold answersOf
  intro hmem
  rcases List.mem_append.1 hmem with hgiven | hend
  · obtain ⟨a, -, ha⟩ := List.mem_map.1 hgiven
    cases ha
  · cases (List.mem_replicate.1 hend).2

/-- Failing after a number of reads is failing after that number of items exactly if there are as
many items, or no more reads than that. -/
theorem eq_answersFailingAfter_iff {items : List α} {limit calls : Nat} {failure : Failure} :
    answersOf items (min calls limit) ++ List.replicate (calls - limit) (.error failure) =
        answersFailingAfter items limit failure calls ↔
      limit ≤ items.length ∨ calls ≤ limit := by
  unfold answersFailingAfter
  split
  · rename_i hlong
    exact iff_of_true rfl (Or.inl hlong)
  · rename_i hshort
    rw [or_iff_right hshort]
    constructor
    · intro heq
      by_contra hcalls
      -- one more read than are let through has failed, and a sequence never does
      refine error_not_mem_answersOf items calls failure (heq ▸ List.mem_append_right _ ?_)
      exact List.mem_replicate.2 ⟨by omega, rfl⟩
    · intro hcalls
      rw [Nat.min_eq_left hcalls, Nat.sub_eq_zero_of_le hcalls, List.replicate_zero,
        List.append_nil]

/-- However often the cursor is read, it gives the items in order, and nothing any more once all are
given. -/
def Exhausts (m : Type → Type) [Monad m] {ps : PostShape.{0}} [WPMonad m ps] {σ : Type}
    [Cursor m σ α] (J : σ → Assertion ps) (items : List α) (c : σ) : Prop :=
  ∀ calls, ⦃J c⦄ (answers calls c : m _) ⦃⇓ r => ⌜r.1 = answersOf items calls⌝ ∧ J r.2⦄

section List

variable {m : Type → Type} [Monad m]

theorem next_list (items : List α) :
    (next items : m _) = pure (.ok items.head?, items.tail) := rfl

theorem answers_list [LawfulMonad m] (items : List α) (calls : Nat) :
    (answers calls items : m _) = pure (answersOf items calls, items.drop calls) := by
  induction calls generalizing items with
  | zero => simp [answers, answersOf]
  | succ calls ih =>
    rw [answers, next_list]
    cases items with
    | nil => simp [ih, answersOf, List.replicate_succ]
    | cons a items => simp [ih, answersOf]

/-- A list gives its items and then nothing any more. -/
theorem exhausts_list {ps : PostShape.{0}} [WPMonad m ps] {I : Assertion ps} (items : List α) :
    Exhausts m (fun _ => I) items items := by
  intro calls
  rw [answers_list]
  exact Hoare.pure rfl .rfl

end List

end Cursor

namespace Breaking

variable {m : Type → Type} [Monad m] {σ α : Type} [Cursor m σ α]

theorem next_zero (c : σ) (failure : Failure) :
    (Cursor.next ({ cursor := c, reads := 0, failure } : Breaking σ) : m _) =
      pure (.error failure, { cursor := c, reads := 0, failure }) := rfl

theorem next_succ (reads : Nat) (c : σ) (failure : Failure) :
    (Cursor.next ({ cursor := c, reads := reads + 1, failure } : Breaking σ) : m _) = (do
      let (answer, c) ← Cursor.next c
      return (answer, { cursor := c, reads, failure })) := rfl

/-- No read is let through any more. -/
theorem answers_broken [LawfulMonad m] (calls : Nat) (c : σ) (failure : Failure) :
    (Cursor.answers calls ({ cursor := c, reads := 0, failure } : Breaking σ) : m _) =
      pure (List.replicate calls (.error failure), { cursor := c, reads := 0, failure }) := by
  induction calls with
  | zero => rfl
  | succ calls ih =>
    rw [Cursor.answers, next_zero]
    simp only [pure_bind, ih, List.replicate_succ]

/-- **Reading a cursor that breaks down** is reading the cursor as often as reads are let through,
and then failing. -/
theorem answers_eq [LawfulMonad m] (calls reads : Nat) (c : σ) (failure : Failure) :
    (Cursor.answers calls ({ cursor := c, reads, failure } : Breaking σ) : m _) = (do
      let (given, c) ← Cursor.answers (min calls reads) c
      return (given ++ List.replicate (calls - reads) (.error failure),
        { cursor := c, reads := reads - calls, failure })) := by
  induction calls generalizing reads c with
  | zero => simp [Cursor.answers]
  | succ calls ih =>
    cases reads with
    | zero =>
      rw [answers_broken, Nat.min_zero, Cursor.answers]
      simp
    | succ reads =>
      rw [Cursor.answers, next_succ, Nat.succ_min_succ, Cursor.answers]
      simp only [bind_assoc, pure_bind, ih, Nat.succ_sub_succ, List.cons_append]

end Breaking

namespace Feed

variable {α : Type}

/-- The sequence in memory that a list is. -/
def ofList (items : List α) : Feed α := { items }

/-- The sequence in memory that a list is where reading it breaks down. -/
def ofBreaking (c : Breaking (List α)) : Feed α where
  items := c.cursor
  breaksAfter := some (c.reads, c.failure)

variable {m : Type → Type} [Monad m] [LawfulMonad m]

theorem next_ofList (items : List α) :
    (Cursor.next (ofList items) : m _) = Prod.map id ofList <$> (Cursor.next items : m _) := by
  rw [Cursor.next_list, map_pure]
  rfl

theorem next_ofBreaking (c : Breaking (List α)) :
    (Cursor.next (ofBreaking c) : m _) = Prod.map id ofBreaking <$> (Cursor.next c : m _) := by
  obtain ⟨items, reads, failure⟩ := c
  cases reads with
  | zero =>
    rw [Breaking.next_zero, map_pure]
    rfl
  | succ reads =>
    rw [Breaking.next_succ, Cursor.next_list, pure_bind, map_pure]
    rfl

end Feed

/-- **What the cursors of a replica answer**: the rows they were opened with and then nothing any
more, or, if they are to break down, as much of that as they let through and then the failure. -/
theorem Replica.answers_cursor {m : Type → Type} [Monad m] [LawfulMonad m] {τ : Type} (r : Replica)
    (rows : List (Row τ)) (calls : Nat) :
    Prod.fst <$> (Cursor.answers calls (r.cursor rows) : m _) =
      pure (match r.faults.cursorLimit with
        | none => Cursor.answersOf rows calls
        | some limit => Cursor.answersOf rows (min calls limit) ++ List.replicate (calls - limit)
            (.error (.replicaCall "chaos: cursor failed mid-stream"))) := by
  unfold cursor
  cases r.faults.cursorLimit with
  | none =>
    have hread := Cursor.answers_map (m := m) Feed.next_ofList calls rows
    rw [Cursor.answers_list, map_pure] at hread
    exact (congrArg _ hread).trans (map_pure _ _)
  | some limit =>
    have hread := Cursor.answers_map (m := m) Feed.next_ofBreaking calls
      ⟨rows, limit, .replicaCall "chaos: cursor failed mid-stream"⟩
    rw [Breaking.answers_eq, Cursor.answers_list, pure_bind, map_pure] at hread
    exact (congrArg _ hread).trans (map_pure _ _)

/-- **What a cursor that breaks down answers.** Its cursor gives some items and then nothing any more.
As many reads as are let through answer what the cursor does, and the others fail. That is what one
would expect of a cursor that fails after a number of items exactly if there are as many items, or if
it is read no more often than that: a read at the end gives no item, but it is counted. -/
theorem Breaking.answers_exact {m : Type → Type} [Monad m] {ps : PostShape.{0}} [WPMonad m ps]
    {σ α : Type} [Cursor m σ α] {J : σ → Assertion ps} {items : List α} {c : σ}
    (h : Cursor.Exhausts m J items c) (limit calls : Nat) (failure : Failure) :
    ⦃J c⦄ (Cursor.answers calls ({ cursor := c, reads := limit, failure } : Breaking σ) : m _)
    ⦃⇓ r => ⌜r.1 = Cursor.answersOf items (min calls limit) ++
          List.replicate (calls - limit) (.error failure) ∧
        (r.1 = Cursor.answersFailingAfter items limit failure calls ↔
          limit ≤ items.length ∨ calls ≤ limit)⌝ ∧ J r.2.cursor⦄ := by
  rw [answers_eq]
  refine Hoare.bind (h (min calls limit)) ?_
  rintro ⟨given, c'⟩ rfl
  exact Hoare.pure ⟨rfl, Cursor.eq_answersFailingAfter_iff⟩ .rfl

/-- One row and two reads that are let through: the second finds the end, and the third fails. -/
theorem Breaking.answers_exact_oneRow :
    Cursor.Exhausts Id (fun _ => ⌜True⌝) ["row"] ["row"] ∧
      (Cursor.answers 3 ({ cursor := ["row"], reads := 2, failure := .timeout } :
        Breaking (List String)) : Id (List (Except Failure (Option String)) × _)).1 =
          [.ok (some "row"), .ok none, .error .timeout] := by
  have hlist : Cursor.Exhausts Id (fun _ => ⌜True⌝) ["row"] ["row"] := Cursor.exhausts_list _
  exact ⟨hlist, (answers_exact hlist 2 3 .timeout trivial).1.1⟩

/-- A row of one column. -/
def onlyRow : Row Value := ⟨[107], (∅ : ExtTreeMap Bytes Value).insert [99] ⟨[118], 5⟩⟩

/-- **A cursor that is to fail after two rows fails after one**: it has given the only row there is
and has reached its end; read once more it fails, where nothing more was to be expected. -/
theorem Replica.cursor_fails_atEnd : ∃ r : Replica, r.faults.cursorLimit = some 2 ∧
    (Cursor.answers 3 (r.cursor [onlyRow]) : Id _).1 =
      [.ok (some onlyRow), .ok none,
        .error (.replicaCall "chaos: cursor failed mid-stream")] ∧
    [onlyRow].length < 2 ∧
    Cursor.answersFailingAfter [onlyRow] 2
        (.replicaCall "chaos: cursor failed mid-stream") 3 =
      [.ok (some onlyRow), .ok none, .ok none] := by
  exact ⟨{ faults := { cursorLimit := some 2 } }, rfl, rfl, by decide, rfl⟩

end QuorumStore
