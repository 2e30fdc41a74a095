import QuorumStore.Cursor
import QuorumStore.Telemetry

/-!
# Pages of adaptive size

A pager reads a source page by page. After each page its reader reports how many of the rows were
still live; the next page is sized by the observed ratio of returned to live rows, so that each
page tends towards as many live rows as the first page had rows. Counts and sizes are 64-bit numbers, and
where a sum or a double does not fit it wraps around. A build that checks its arithmetic stops there.

* `PageSource`: a source that can be read on from a continuation token.
* `Pager.bestSize`: the size the next fetch would ask for.
* `Pager.refresh`: opens the source anew when the size has moved by a factor of two or more.
* `Pager.nextPage`: the next page.
* `Pager.ReportFits`, `Pager.DoubleFits`, `Pager.PageFits`: what is reckoned fits in 64 bits.
-/

namespace QuorumStore

/-- A source of items that can be read on from a continuation token. -/
structure PageSource (m : Type → Type) (σ α : Type) where
  /-- Opens a cursor over the items after a token, or from the start, which fetches that many
  items at a time. -/
  openAfter : UInt64 → Option Bytes → m (Except Failure σ)
  /-- Whether any item can follow a token. -/
  hasNext : Bytes → Bool
  /-- The token of a page that is not empty. -/
  tokenOf : List α → Bytes

/-- A pager over a source with cursors `σ`. -/
structure Pager (σ : Type) where
  /-- The size of the first page. -/
  firstSize : UInt64
  /-- The largest size. -/
  max : UInt64
  /-- The cursor being read. -/
  current : Option σ := none
  /-- The token of the last page that was not empty. -/
  lastToken : Option Bytes := none
  /-- Rows returned so far. -/
  returned : UInt64 := 0
  /-- Rows reported to be live so far. -/
  notDeleted : UInt64 := 0
  /-- The size that the last successful open asked for. -/
  lastSize : UInt64
  /-- Whether the source is known to have ended. -/
  exhausted : Bool := false

namespace Pager

/-- The product of two sizes, or the largest size where it does not fit. -/
def saturatingMul (a b : UInt64) : UInt64 :=
  if a.toNat * b.toNat < UInt64.size then a * b else UInt64.ofNat (UInt64.size - 1)

/-- The quotient rounded up, for a positive divisor. -/
def divCeil (a b : UInt64) : UInt64 := if a % b = 0 then a / b else a / b + 1

variable {σ : Type}

/-- A pager at the start of its source; pages have a positive size. -/
def of? (firstSize max : UInt64) : Except Failure (Pager σ) :=
  if firstSize = 0 then .error (.invalidConfig "original batch size must be > 0")
  else .ok { firstSize, max := if max = 0 then 1 else max, lastSize := firstSize }

/-- The size the next fetch would ask for. -/
def bestSize (p : Pager σ) : UInt64 :=
  if p.returned = 0 then p.firstSize
  else
    let size :=
      if p.notDeleted = 0 then saturatingMul p.returned 4
      else divCeil (saturatingMul p.firstSize p.returned) p.notDeleted
    if size ≤ p.max then size else p.max

/-- Reports that `live` rows of the last page were not deleted. -/
def mark (p : Pager σ) (live : UInt64) : Pager σ := { p with notDeleted := p.notDeleted + live }

/-- What is logged after a report: an error if more rows were reported live than returned. -/
def notices (p : Pager σ) : List LogEvent :=
  if p.returned < p.notDeleted then
    [{ level := .error
       message := "more rows reported not deleted than were returned"
       fields :=
         [("not_deleted", .number p.notDeleted.toNat), ("returned", .number p.returned.toNat)] }]
  else []

/-- Whether a best size is so far from the last one that the source is opened anew. -/
def shouldReopen (best last : UInt64) : Bool := last * 2 ≤ best || best ≤ last / 2

variable {m : Type → Type} [Monad m] {α : Type} [Cursor m σ α]

/-- A report and those before it add up to a 64-bit number. -/
def ReportFits (p : Pager σ) (live : UInt64) : Prop :=
  p.notDeleted.toNat + live.toNat < UInt64.size

/-- A page and those before it have a 64-bit number of rows. -/
def PageFits (p : Pager σ) (page : List α) : Prop := p.returned.toNat + page.length < UInt64.size

/-- Where the last size is compared with the best one, its double is a 64-bit number. -/
def DoubleFits (src : PageSource m σ α) (p : Pager σ) : Prop :=
  p.exhausted = false → ∀ token ∈ p.lastToken, src.hasNext token = true →
    2 * p.lastSize.toNat < UInt64.size

instance (p : Pager σ) (live : UInt64) : Decidable (p.ReportFits live) :=
  inferInstanceAs (Decidable (_ < _))

instance (p : Pager σ) (page : List α) : Decidable (p.PageFits page) :=
  inferInstanceAs (Decidable (_ < _))

instance (src : PageSource m σ α) (p : Pager σ) : Decidable (p.DoubleFits src) :=
  inferInstanceAs (Decidable (_ → ∀ token ∈ p.lastToken, _))

/-- Closes the cursor being read, if there is one. -/
def closeCurrent (p : Pager σ) : m (Pager σ) := do
  match p.current with
  | none => return p
  | some cursor =>
    let _ ← Cursor.close cursor
    return { p with current := none }

/-- Ends the reading. Later pages are empty. -/
def close (p : Pager σ) : m (Pager σ) := { p with exhausted := true }.closeCurrent

/-- Opens the source with a page size. -/
def openWith (src : PageSource m σ α) (p : Pager σ) (size : UInt64) :
    m (Except Failure Unit × Pager σ) := do
  match ← src.openAfter size p.lastToken with
  | .error e => return (.error e, p)
  | .ok cursor => return (.ok (), { p with current := some cursor, lastSize := size })

/-- Sees to it that the cursor being read fits the best size. -/
def refresh (src : PageSource m σ α) (p : Pager σ) : m (Except Failure Unit × Pager σ) := do
  if p.exhausted then return (.ok (), p)
  match p.lastToken with
  | none => if p.current.isNone then openWith src p p.firstSize else return (.ok (), p)
  | some token =>
    if !src.hasNext token then
      return (.ok (), ← close p)
    else if shouldReopen p.bestSize p.lastSize then
      openWith src (← closeCurrent p) p.bestSize
    else return (.ok (), p)

/-- Takes note of a page that was read. -/
def turnPage (src : PageSource m σ α) (p : Pager σ) (page : List α) : Pager σ :=
  { p with
    returned := p.returned + UInt64.ofNat page.length
    lastToken := if page.isEmpty then p.lastToken else some (src.tokenOf page) }

/-- The next page. It is empty once the source is exhausted, and from then on. -/
def nextPage (src : PageSource m σ α) (p : Pager σ) : m (Except Failure (List α) × Pager σ) := do
  match ← refresh src p with
  | (.error e, p) => return (.error e, p)
  | (.ok (), p) =>
    match p.current with
    | none => return (.ok [], p)
    | some cursor =>
      match ← Cursor.read p.lastSize.toNat cursor with
      | (.error e, cursor) => return (.error e, { p with current := some cursor })
      | (.ok (page, ended), cursor) =>
        let p := turnPage src { p with current := some cursor } page
        return (.ok page, ← if ended then close p else pure p)

end Pager

end QuorumStore
