import QuorumStore.RowRange
import QuorumStore.Scan.Pager

/-!
# Scans for live rows

A live-row scan reads a range through a pager and returns only the rows that still hold data.

* `LiveScan.nextBatch`: the next page that has a live row, reduced to its live rows.
* `LiveScan.collect`: every live row of the range.
-/

namespace QuorumStore

/-- What a search through pages came to. -/
inductive Search (α : Type) where
  /-- It found something. -/
  | found (a : α)
  /-- There is nothing more. -/
  | exhausted
  /-- It was not given enough steps. -/
  | interrupted

/-- A scan for the live rows of a range. -/
structure LiveScan (σ : Type) where
  /-- The rows to look at. -/
  range : RowRange
  /-- The pages being read. -/
  pages : Pager σ

namespace LiveScan

variable {m : Type → Type} [Monad m] {σ : Type}

/-- The pages of a range: the token is the last row key, and reading goes on just after it. -/
def pageSource (openRange : RowRange → m (Except Failure σ)) (range : RowRange) :
    PageSource m σ (Row Value) where
  openAfter size token :=
    openRange (((token.map range.resumeAfter).getD range).withBatchHint size)
  hasNext token := range.contains token.successor
  tokenOf page := (page.getLast?.map Row.key).getD []

variable [Cursor m σ (Row Value)]

/-- The live rows of the next page that has any, looking at no more than `limit` pages. -/
def nextBatch (openRange : RowRange → m (Except Failure σ)) :
    Nat → LiveScan σ → m (Except Failure (Search (List (Row Value))) × LiveScan σ)
  | 0, s => return (.ok .interrupted, s)
  | limit + 1, s => do
    match ← s.pages.nextPage (pageSource openRange s.range) with
    | (.error e, pages) => return (.error e, { s with pages })
    | (.ok [], pages) => return (.ok .exhausted, { s with pages })
    | (.ok page, pages) =>
      let live := page.filter Row.isLive
      let s := { s with pages := pages.mark (UInt64.ofNat live.length) }
      if live.isEmpty then nextBatch openRange limit s else return (.ok (.found live), s)

/-- Closes the pages being read. -/
def close (s : LiveScan σ) : m (LiveScan σ) := do
  return { s with pages := ← s.pages.close }

/-- All batches up to the end of the range, looking at no more than `limit` of them. -/
def batches (openRange : RowRange → m (Except Failure σ)) (pageLimit : Nat) :
    Nat → LiveScan σ → m (Except Failure (List (Row Value)) × LiveScan σ)
  | 0, s => return (.ok [], s)
  | limit + 1, s => do
    match ← s.nextBatch openRange pageLimit with
    | (.error e, s) => return (.error e, s)
    | (.ok (.found live), s) =>
      match ← batches openRange pageLimit limit s with
      | (.error e, s) => return (.error e, s)
      | (.ok rows, s) => return (.ok (live ++ rows), s)
    | (.ok _, s) => return (.ok [], s)

/-- Every live row of the range. The pages are closed at the end, but not when a read fails. -/
def collect (openRange : RowRange → m (Except Failure σ)) (limit : Nat) (s : LiveScan σ) :
    m (Except Failure (List (Row Value)) × LiveScan σ) := do
  match ← batches openRange limit limit s with
  | (.error e, s) => return (.error e, s)
  | (.ok rows, s) => return (.ok rows, ← s.close)

/-- How many rows the page being read asked for. -/
def currentSize (s : LiveScan σ) : UInt64 := s.pages.lastSize

end LiveScan

end QuorumStore
