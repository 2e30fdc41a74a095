import QuorumStore.Cursor

/-!
# A cursor with one row of lookahead

* `Lookahead.peek`: the key of the next row, which is fetched if need be.
* `Lookahead.take`: the row last peeked at.
-/

namespace QuorumStore

/-- A replica's cursor over rows, with one row of lookahead. -/
structure Lookahead (σ τ : Type) where
  /-- The replica the rows come from. -/
  replica : ReplicaId
  /-- The cursor read ahead of. -/
  cursor : σ
  /-- The row read ahead. -/
  peeked : Option (Row τ) := none
  /-- Whether the cursor has ended or was closed. -/
  done : Bool := false

namespace Lookahead

variable {m : Type → Type} [Monad m] {σ τ : Type}

/-- The key of the next row, or none at the end. -/
def peek [Cursor m σ (Row τ)] (c : Lookahead σ τ) :
    m (Except Failure (Option Bytes) × Lookahead σ τ) := do
  if c.peeked.isNone && !c.done then
    match ← Cursor.next c.cursor with
    | (.error e, cursor) => return (.error e, { c with cursor })
    | (.ok none, cursor) => return (.ok none, { c with cursor, done := true })
    | (.ok (some row), cursor) => return (.ok (some row.key), { c with cursor, peeked := some row })
  else return (.ok (c.peeked.map Row.key), c)

/-- The row last peeked at. -/
def take (c : Lookahead σ τ) : Option (Row τ) × Lookahead σ τ :=
  (c.peeked, { c with peeked := none })

/-- Closes the cursor and forgets the row read ahead. -/
def close [Cursor m σ (Row τ)] (c : Lookahead σ τ) : m (Lookahead σ τ) := do
  let cursor ← Cursor.close c.cursor
  return { c with cursor, peeked := none, done := true }

end Lookahead

end QuorumStore
