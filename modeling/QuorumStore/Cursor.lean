import QuorumStore.Failure

/-!
# Cursors

A cursor is a forward-only, closable sequence of items. Reading and closing it may act on its
surroundings, so both run in a monad `m`; the cursor's own state is a value of a type `σ`.

* `Cursor`: reading and closing.
* `Cursor.read`: reads a number of items, or fewer at the end of the sequence.
* `Cursor.collect`: reads a sequence to its end and closes the cursor on every way out.
* `Breaking`: a cursor that breaks down after a number of reads.
* `Feed`: a sequence held in memory, which may break down in this way.
* `CloseCounted`: a cursor with the number of times it was closed.
-/

namespace QuorumStore

/-- A pull-based sequence of items `α` with state `σ`. A cursor that is not read to its end has
to be closed. -/
class Cursor (m : Type → Type) (σ : Type) (α : outParam Type) where
  /-- The next item, or none once the sequence is exhausted. -/
  next : σ → m (Except Failure (Option α) × σ)
  /-- Releases what the cursor holds. -/
  close : σ → m σ

namespace Cursor

variable {m : Type → Type} [Monad m] {σ α : Type} [Cursor m σ α]

/-- Reads up to `n` items, and says whether the sequence ended before the last of them. -/
def read : Nat → σ → m (Except Failure (List α × Bool) × σ)
  | 0, s => return (.ok ([], false), s)
  | n + 1, s => do
    match ← next s with
    | (.error e, s) => return (.error e, s)
    | (.ok none, s) => return (.ok ([], true), s)
    | (.ok (some a), s) =>
      match ← read n s with
      | (.error e, s) => return (.error e, s)
      | (.ok (as, ended), s) => return (.ok (a :: as, ended), s)

/-- Reads a sequence of fewer than `limit` items to its end and closes the cursor, also if a read
fails. -/
def collect (limit : Nat) (s : σ) : m (Except Failure (List α) × σ) := do
  let (result, s) ← read limit s
  let s ← close s
  return (result.map Prod.fst, s)

end Cursor

/-- A bound that no number of rows reaches: counts of rows are 64-bit numbers. -/
def rowLimit : Nat := UInt64.size

/-- A cursor that breaks down. A number of reads are let through to it, past its end or not, and
every later one fails. -/
structure Breaking (σ : Type) where
  /-- The cursor. -/
  cursor : σ
  /-- The reads that are still let through. -/
  reads : Nat
  /-- The failure of those after. -/
  failure : Failure

instance {m : Type → Type} [Monad m] {σ α : Type} [Cursor m σ α] : Cursor m (Breaking σ) α where
  next c :=
    match c.reads with
    | 0 => return (.error c.failure, c)
    | reads + 1 => do
      let (result, cursor) ← Cursor.next c.cursor
      return (result, { c with cursor, reads })
  close c := return { c with cursor := ← Cursor.close c.cursor }

/-- A list is read from its head. -/
instance {m : Type → Type} [Monad m] {α : Type} : Cursor m (List α) α where
  next items := return (.ok items.head?, items.tail)
  close _ := return []

/-- A sequence held in memory. With `breaksAfter` set to a number and a failure, that many reads
are let through, past the end or not, and every later one fails. -/
structure Feed (α : Type) where
  /-- The items to come. -/
  items : List α
  /-- The reads that are still let through, and the failure of those after. -/
  breaksAfter : Option (Nat × Failure) := none

namespace Feed

variable {α : Type}

/-- The next item, or none once all are read. -/
def next (f : Feed α) : Except Failure (Option α) × Feed α :=
  match f.breaksAfter with
  | none =>
    let (result, items) := (Cursor.next f.items : Id (Except Failure (Option α) × List α))
    (result, { f with items })
  | some (reads, failure) =>
    let (result, c) := (Cursor.next { cursor := f.items, reads, failure } :
      Id (Except Failure (Option α) × Breaking (List α)))
    (result, { items := c.cursor, breaksAfter := some (c.reads, c.failure) })

/-- Drops the items to come. -/
def close (f : Feed α) : Feed α := { f with items := [] }

/-- How many items are to come. -/
def remaining (f : Feed α) : Nat := f.items.length

instance {m : Type → Type} [Monad m] : Cursor m (Feed α) α where
  next f := return f.next
  close f := return f.close

end Feed

/-- A cursor with the number of times it was closed. -/
structure CloseCounted (σ : Type) where
  /-- The cursor. -/
  cursor : σ
  /-- How often it was closed. -/
  closes : Nat := 0

instance {m : Type → Type} [Monad m] {σ α : Type} [Cursor m σ α] :
    Cursor m (CloseCounted σ) α where
  next c := do
    let (result, cursor) ← Cursor.next c.cursor
    return (result, { c with cursor })
  close c := do
    return { cursor := ← Cursor.close c.cursor, closes := c.closes + 1 }

end QuorumStore
