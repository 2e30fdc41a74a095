import QuorumStore.Scan.Pager

/-!
# Paging through numbers

The numbers below a bound, as a source of pages with faults, and a record of what its reader does:
small enough to watch a pager at work.

* `NumberSource`: the source.
* `NumberSource.pages`: its pages, which keep the record `NumberRecord`.
* `NumberPager`: a pager over the source, with the record and the log.
* `NumberPager.step`: one step of its reader.
-/

namespace QuorumStore

/-- The numbers below a bound, as a source of pages. -/
structure NumberSource where
  /-- How many numbers there are. -/
  length : Nat
  /-- Whether a cursor ends after the batch it was opened for, and not at the last number. -/
  bounded : Bool := false
  /-- Which opens fail, counted from one since the record was last looked at. -/
  failingOpens : List Nat := []
  /-- After how many reads cursors break down. -/
  cursorLimit : Option Nat := none

/-- What a source has seen of its reader. -/
structure NumberRecord where
  /-- Size and first number of each open since the record was last looked at, oldest first. -/
  opened : List (UInt64 × Nat) := []
  /-- How often a cursor was closed. -/
  closes : Nat := 0

/-- A computation that keeps a record. -/
abbrev Recording := StateM NumberRecord

/-- A cursor over numbers, which records its closing. -/
structure NumberCursor where
  /-- The numbers to come. -/
  feed : Feed Nat

instance : Cursor Recording NumberCursor Nat where
  next c := do
    let (result, feed) := c.feed.next
    return (result, ⟨feed⟩)
  close c := do
    modify fun r => { r with closes := r.closes + 1 }
    return ⟨c.feed.close⟩

/-- A number as four bytes, the most significant first. -/
def tokenOfNumber (n : Nat) : Bytes :=
  [UInt8.ofNat (n >>> 24), UInt8.ofNat (n >>> 16), UInt8.ofNat (n >>> 8), UInt8.ofNat n]

/-- The number that bytes stand for, the most significant first. -/
def numberOfToken (token : Bytes) : Nat := token.foldl (fun n b => 256 * n + b.toNat) 0

namespace NumberSource

/-- The numbers of a cursor that starts at `first` and was opened for `size` of them. -/
def cursor (s : NumberSource) (first : Nat) (size : UInt64) : NumberCursor :=
  let count := s.length - first
  let count := if s.bounded then min count size.toNat else count
  ⟨{ items := List.range' first count
     breaksAfter := s.cursorLimit.map (·, .replicaCall "cursor") }⟩

/-- The pages of the source. A token is the last number read. -/
def pages (s : NumberSource) : PageSource Recording NumberCursor Nat where
  openAfter size token := do
    let first := (token.map fun t => numberOfToken t + 1).getD 0
    modify fun r => { r with opened := r.opened ++ [(size, first)] }
    if (← get).opened.length ∈ s.failingOpens then return .error (.replicaCall "open")
    else return .ok (s.cursor first size)
  hasNext token := numberOfToken token + 1 < s.length
  tokenOf page := tokenOfNumber (page.getLastD 0)

end NumberSource

/-- A pager over a source of numbers. -/
structure NumberPager where
  /-- The source. -/
  source : NumberSource
  /-- The pager. -/
  pager : Pager NumberCursor
  /-- What the source has seen. -/
  record : NumberRecord := {}
  /-- The log since it was last looked at. -/
  log : List LogEvent := []

/-- A step of the reader of a pager. -/
inductive PagerStep where
  /-- Asks for the next page. -/
  | get
  /-- Reports how many items were live. -/
  | mark (live : UInt64)
  /-- Ends the reading. -/
  | close
  /-- Looks at the log. -/
  | log

/-- The outcome of a step of the reader of a pager. -/
inductive PagerReply where
  /-- Nothing to report. -/
  | done
  /-- A page. -/
  | page (items : List Nat)
  /-- A failure. -/
  | failed (e : Failure)
  /-- Log events. -/
  | events (es : List LogEvent)
  /-- A sum or a double did not fit in 64 bits, at which the program stopped. -/
  | stopped

namespace NumberPager

/-- A pager at the start of its source. -/
def of? (source : NumberSource) (size max : UInt64) : Except Failure NumberPager := do
  return { source, pager := ← Pager.of? size max }

/-- The outcome of a step, and the pager after it, in a build that checks its arithmetic. Its record of
opens is that of the step. -/
def step (p : NumberPager) (s : PagerStep) : PagerReply × NumberPager :=
  let record := { p.record with opened := [] }
  match s with
  | .get =>
    if p.pager.DoubleFits p.source.pages then
      let ((result, pager), record) := (p.pager.nextPage p.source.pages).run record
      let reply : PagerReply :=
        match result with
        | .ok page => if p.pager.PageFits page then .page page else .stopped
        | .error e => .failed e
      (reply, { p with pager, record })
    else (.stopped, p)
  | .mark live =>
    if p.pager.ReportFits live then
      let pager := p.pager.mark live
      (.done, { p with pager, record, log := p.log ++ pager.notices })
    else (.stopped, p)
  | .close =>
    let (pager, record) := (p.pager.close : Recording (Pager NumberCursor)).run record
    (.done, { p with pager, record })
  | .log => (.events p.log, { p with record, log := [] })

end NumberPager

end QuorumStore
