import QuorumStore.Proofs.Scan.Turns
import QuorumStore.Scan.LiveRows

/-!
# Collecting live rows closes cursors

A scan for live rows is collected. Its pager opens and closes cursors on the way, opens may be refused and
reads may fail. A collection that comes to an end leaves no cursor open. One that fails leaves the cursor
open of which a read failed, and no other.

* `Pager.FailedAt`: what a pager is left with when a page fails.
* `LiveScan.nextBatch_leaves`, `LiveScan.batches_leaves`: the cursor of a scan is the one that is open.
* `LiveScan.Released`: which cursors are closed after a collection.
* `LiveScan.collect_released`: **all of them, but for one whose read failed.**
* `LiveScan.collect_unreleased`: a collection that leaves its cursor open.
-/

namespace QuorumStore

open CursorLog

namespace Pager

variable {ι α : Type} {b : Behaviour ι α} {request : UInt64 → Option Bytes → ι}
  {src : PageSource (Watching ι α) (Watched ι α) α} {p : Pager (Watched ι α)} {log : CursorLog ι α}

/-- A page failed just now. Either an open was refused, and the pager is without a cursor, or a read
failed, and the pager has kept the cursor. -/
def FailedAt (p : Pager (Watched ι α)) (log : CursorLog ι α) (e : Failure) : Prop :=
  (p.current = none ∧ ∃ x, log.getLast? = some (.opened x [])) ∨
    ∃ c, p.current = some c ∧ log.getLast? = some (.read c.id (.error e))

theorem PageTurn.failedAt {e : Failure} {q : Pager (Watched ι α)} {log' : CursorLog ι α}
    (h : PageTurn b request src p log (.error e, q) log') : q.FailedAt log' e := by
  cases h with
  | refused _ _ _ hrefresh =>
    cases hrefresh with
    | refused size _ hwants => exact Or.inl ⟨rfl, request size p.lastToken, List.getLast?_concat⟩
  | failed _ before hrefresh c hcurrent items _ hlength =>
    exact Or.inr ⟨c, hcurrent, List.getLast?_concat⟩

end Pager

namespace LiveScan

variable (b : Behaviour RowRange (Row Value)) {log : CursorLog RowRange (Row Value)}

/-- A call leaves open the cursor of the scan, and says so if a page failed. -/
structure Leaves {β : Type} (result : Except Failure β) (s : LiveScan (Watched RowRange (Row Value)))
    (log : CursorLog RowRange (Row Value)) : Prop where
  tended : Tended log s.pages.ids
  failed : ∀ e, result = .error e → s.pages.FailedAt log e

theorem nextBatch_leaves (limit : Nat) (s : LiveScan (Watched RowRange (Row Value)))
    (h : Tended log s.pages.ids) :
    ∃ result s' log', (s.nextBatch b.openOne limit).run log = ((result, s'), log') ∧
      Leaves result s' log' := by
  induction limit generalizing s log with
  | zero => exact ⟨_, _, _, rfl, h, fun e he => by cases he⟩
  | succ limit ih =>
    obtain ⟨⟨result, pages⟩, log', hrun, hturn⟩ := Pager.nextPage_pageTurn b
      (fun size token => ((token.map s.range.resumeAfter).getD s.range).withBatchHint size)
      (fun token => s.range.contains token.successor)
      (fun page => (page.getLast?.map Row.key).getD []) s.pages log
    have htended := hturn.tended h
    have hrun : (s.pages.nextPage (pageSource b.openOne s.range)).run log =
        ((result, pages), log') := hrun
    unfold nextBatch
    rw [Watching.run_bind, hrun]
    cases result with
    | error e =>
      refine ⟨_, _, _, rfl, htended, fun e' he' => ?_⟩
      cases he'
      exact hturn.failedAt
    | ok page =>
      cases page with
      | nil => exact ⟨_, _, _, rfl, htended, fun e he => by cases he⟩
      | cons row page =>
        dsimp only
        split
        · exact ih _ htended
        · exact ⟨_, _, _, rfl, htended, fun e he => by cases he⟩

theorem batches_leaves (pageLimit limit : Nat) (s : LiveScan (Watched RowRange (Row Value)))
    (h : Tended log s.pages.ids) :
    ∃ result s' log', (s.batches b.openOne pageLimit limit).run log = ((result, s'), log') ∧
      Leaves result s' log' := by
  induction limit generalizing s log with
  | zero => exact ⟨_, _, _, rfl, h, fun e he => by cases he⟩
  | succ limit ih =>
    obtain ⟨result, s', log', hrun, hleaves⟩ := nextBatch_leaves b pageLimit s h
    unfold batches
    rw [Watching.run_bind, hrun]
    match result, hleaves with
    | .error e, hleaves =>
      refine ⟨_, _, _, rfl, hleaves.tended, fun e' he' => ?_⟩
      cases he'
      exact hleaves.failed e rfl
    | .ok (.found live), hleaves =>
      obtain ⟨result, s'', log'', hrun, hleaves'⟩ := ih s' hleaves.tended
      dsimp only
      rw [Watching.run_bind, hrun]
      cases result with
      | error e =>
        refine ⟨_, _, _, rfl, hleaves'.tended, fun e' he' => ?_⟩
        cases he'
        exact hleaves'.failed e rfl
      | ok rows => exact ⟨_, _, _, rfl, hleaves'.tended, fun e he => by cases he⟩
    | .ok .exhausted, hleaves => exact ⟨_, _, _, rfl, hleaves.tended, fun e he => by cases he⟩
    | .ok .interrupted, hleaves => exact ⟨_, _, _, rfl, hleaves.tended, fun e he => by cases he⟩

/-- Which cursors are closed after a collection. -/
structure Released (result : Except Failure (List (Row Value)))
    (log : CursorLog RowRange (Row Value)) : Prop where
  orderly : log.Orderly
  ended : ∀ rows, result = .ok rows → ∀ id, log.Gave id → log.closings id = 1
  /-- A refused open leaves no cursor open. A failed read leaves open the cursor that was read. -/
  failed : ∀ e, result = .error e →
    (∃ range, log.getLast? = some (.opened range [])) ∧ (∀ id, log.Gave id → log.closings id = 1) ∨
    ∃ id, log.getLast? = some (.read id (.error e)) ∧ log.Gave id ∧ log.closings id = 0 ∧
      ∀ other, log.Gave other → other ≠ id → log.closings other = 1

/-- A scan that is closed closes the cursor of its pager. -/
theorem run_close (s : LiveScan (Watched RowRange (Row Value))) :
    (s.close : Watching RowRange (Row Value) _).run log =
      ({ s with pages := { s.pages with exhausted := true, current := none } },
        log ++ s.pages.closing) := by
  unfold close
  rw [Watching.run_bind, Pager.run_close]
  rfl

/-- When a page has failed, only the cursor of which a read failed is still open. -/
theorem Leaves.released {β : Type} {e : Failure} {s : LiveScan (Watched RowRange (Row Value))}
    (h : Leaves (.error e : Except Failure β) s log) : Released (.error e) log := by
  refine ⟨h.tended.orderly, fun rows hrows => (by cases hrows), fun e' he' => ?_⟩
  cases he'
  have htended := h.tended
  unfold Pager.ids at htended
  obtain ⟨hcurrent, hlast⟩ | ⟨c, hcurrent, hlast⟩ := h.failed e rfl
  · rw [hcurrent] at htended
    exact Or.inl ⟨hlast, fun id hgave => Tended.closings_eq_one htended hgave⟩
  · rw [hcurrent] at htended
    have htended : Tended log [c.id] := htended
    have hopen : log.Holds c.id := (htended.holds_iff c.id).2 (List.mem_singleton_self c.id)
    refine Or.inr ⟨c.id, hlast, hopen.1, closings_eq_zero hopen.2, fun other hgave hne => ?_⟩
    refine htended.orderly.closings_eq_one hgave fun hother => hne ?_
    exact List.mem_singleton.1 ((htended.holds_iff other).1 hother)

/-- **A collection closes every cursor**, whatever is refused or fails, but for one whose read failed. -/
theorem collect_released {start max : UInt64} {pages : Pager (Watched RowRange (Row Value))}
    (hpages : Pager.of? start max = .ok pages) (range : RowRange) (limit : Nat) :
    ∃ result s log, (collect b.openOne limit ⟨range, pages⟩).run [] = ((result, s), log) ∧
      Released result log := by
  have hstart : Tended ([] : CursorLog RowRange (Row Value)) pages.ids := by
    rw [(Pager.eq_of_of? hpages).2]
    exact .nil
  obtain ⟨result, s, log, hrun, hleaves⟩ := batches_leaves b limit limit ⟨range, pages⟩ hstart
  unfold collect
  rw [Watching.run_bind, hrun]
  cases result with
  | ok rows =>
    have hclosed := Pager.tended_closing hleaves.tended
    dsimp only
    rw [Watching.run_bind, run_close]
    exact ⟨_, _, _, rfl, hclosed.orderly, fun _ _ id hgave => hclosed.closings_eq_one hgave,
      fun e he => by cases he⟩
  | error e => exact ⟨.error e, s, log, rfl, hleaves.released⟩

/-- Every open is granted, and every read fails. -/
def brokenReads : Behaviour RowRange (Row Value) where
  opens _ _ _ := .ok ()
  reads _ _ := .error .timeout

theorem collect_released_brokenReads :
    let pages : Pager (Watched RowRange (Row Value)) := { firstSize := 2, max := 8, lastSize := 2 }
    Pager.of? 2 8 = .ok pages ∧ ∃ result s log,
      (collect brokenReads.openOne 3 ⟨.all, pages⟩).run [] = ((result, s), log) ∧
      Released result log := by
  intro pages
  have hpages : Pager.of? 2 8 = .ok pages := rfl
  exact ⟨hpages, collect_released brokenReads hpages .all 3⟩

/-- The first read fails, and with it the collection, which does not close the cursor. -/
theorem collect_unreleased : ∃ s log,
    (collect brokenReads.openOne 3 ⟨.all, { firstSize := 2, max := 8, lastSize := 2 }⟩).run [] =
      ((.error .timeout, s), log) ∧ log.Gave (0, 0) ∧ log.closings (0, 0) = 0 :=
  ⟨_, [.opened (RowRange.all.withBatchHint 2) [(0, 0)], .read (0, 0) (.error .timeout)], rfl,
    ⟨_, _, List.mem_cons_self, List.mem_singleton_self _⟩, rfl⟩

end LiveScan

end QuorumStore
