import QuorumStore.Proofs.Cursor.Watched
import QuorumStore.Proofs.Scan.Calls

/-!
# What a pager does for a page

A pager that is asked for a page may close its cursor and open another, and then reads from the cursor it
has. Here are all the ways in which that can go, with what happens to the cursors on each of them.

* `Behaviour.pageSource`: a source of pages whose cursors are watched.
* `Watching.ReadAhead`: how reading a number of items ends.
* `Pager.Refreshed`, `Pager.refresh_refreshed`: what a pager does before it reads.
* `Pager.Drawn`, `Pager.nextPage_drawn`: what it does then.
* `Pager.PageTurn`, `Pager.nextPage_pageTurn`: **the ways in which asking for a page goes.**
* `Pager.PageTurn.tended`: the cursor of the pager is the one that is open.
-/

namespace QuorumStore

open CursorLog

variable {ι α : Type}

/-- A source of pages whose cursors are watched. For a page size and a token it is asked to open what
`request` says. -/
def Behaviour.pageSource (b : Behaviour ι α) (request : UInt64 → Option Bytes → ι)
    (hasNext : Bytes → Bool) (tokenOf : List α → Bytes) :
    PageSource (Watching ι α) (Watched ι α) α where
  openAfter size token := b.openOne (request size token)
  hasNext := hasNext
  tokenOf := tokenOf

namespace Watching

/-- The reads that gave some items. -/
def itemsRead (id : CursorId) (items : List α) : CursorLog ι α :=
  items.map fun a => .read id (.ok (some a))

/-- How reading `n` items of a cursor ends: with all of them, at the end of the cursor, or by a failure. -/
inductive ReadAhead (n : Nat) (id : CursorId) (log : CursorLog ι α) :
    Except Failure (List α × Bool) → CursorLog ι α → Prop where
  | full (items : List α) (hlength : items.length = n) :
    ReadAhead n id log (.ok (items, false)) (log ++ itemsRead id items)
  | ended (items : List α) (hlength : items.length < n) :
    ReadAhead n id log (.ok (items, true)) (log ++ itemsRead id items ++ [.read id (.ok none)])
  | failed (items : List α) (e : Failure) (hlength : items.length < n) :
    ReadAhead n id log (.error e) (log ++ itemsRead id items ++ [.read id (.error e)])

/-- One more item before. -/
theorem ReadAhead.cons {n : Nat} {id : CursorId} {log log' : CursorLog ι α} {a : α}
    {result : Except Failure (List α × Bool)}
    (h : ReadAhead n id (log ++ [.read id (.ok (some a))]) result log') :
    ReadAhead (n + 1) id log (result.map fun r => (a :: r.1, r.2)) log' := by
  have hmore : ∀ items : List α, log ++ [.read id (.ok (some a))] ++ itemsRead id items =
      log ++ itemsRead id (a :: items) := by
    intro items
    rw [List.append_assoc]
    rfl
  cases h with
  | full items hlength =>
    rw [hmore]
    exact .full (a :: items) (congrArg (· + 1) hlength)
  | ended items hlength =>
    rw [hmore]
    exact .ended (a :: items) (Nat.succ_lt_succ hlength)
  | failed items e hlength =>
    rw [hmore]
    exact .failed (a :: items) e (Nat.succ_lt_succ hlength)

theorem run_read (n : Nat) (c : Watched ι α) (log : CursorLog ι α) :
    ∃ result log', (Cursor.read n c : Watching ι α _).run log = ((result, c), log') ∧
      ReadAhead n c.id log result log' := by
  have hnone : log ++ itemsRead c.id ([] : List α) = log := List.append_nil log
  induction n generalizing log with
  | zero =>
    have hread : ReadAhead 0 c.id log _ _ := .full [] rfl
    rw [hnone] at hread
    exact ⟨_, _, rfl, hread⟩
  | succ n ih =>
    unfold Cursor.read
    rw [run_bind, run_next]
    dsimp only
    cases hresult : c.behaviour.reads log c.id with
    | error e =>
      have hread : ReadAhead (n + 1) c.id log _ _ := .failed [] e (Nat.succ_pos n)
      rw [hnone] at hread
      exact ⟨_, _, rfl, hread⟩
    | ok next =>
      cases next with
      | none =>
        have hread : ReadAhead (n + 1) c.id log _ _ := .ended [] (Nat.succ_pos n)
        rw [hnone] at hread
        exact ⟨_, _, rfl, hread⟩
      | some a =>
        obtain ⟨result, log', hrun, hread⟩ :=
          ih (log ++ [.read c.id (.ok (some a))]) (List.append_nil _)
        refine ⟨_, log', ?_, hread.cons⟩
        dsimp only
        rw [run_bind, hrun]
        cases result <;> rfl

end Watching

namespace Pager

open Watching

variable (b : Behaviour ι α) (request : UInt64 → Option Bytes → ι) (hasNext : Bytes → Bool)
  (tokenOf : List α → Bytes) {src : PageSource (Watching ι α) (Watched ι α) α}
  {p : Pager (Watched ι α)} {log : CursorLog ι α}

/-- The cursor that a pager holds, if it holds one. -/
def ids (p : Pager (Watched ι α)) : List CursorId := p.current.toList.map Watched.id

/-- What happens when a pager closes the cursor it holds. -/
def closing (p : Pager (Watched ι α)) : CursorLog ι α := p.ids.map .closed

/-- What a pager does before it reads: it leaves things as they are, it ends, or it opens its source,
which may fail. -/
inductive Refreshed (b : Behaviour ι α) (request : UInt64 → Option Bytes → ι)
    (src : PageSource (Watching ι α) (Watched ι α) α) (p : Pager (Watched ι α))
    (log : CursorLog ι α) : Except Failure Unit × Pager (Watched ι α) → CursorLog ι α → Prop where
  | kept (hwants : ∀ size, ¬Wants src p size) (hends : ¬Ends src p) :
    Refreshed b request src p log (.ok (), p) log
  | ended (hends : Ends src p) :
    Refreshed b request src p log (.ok (), { p with exhausted := true, current := none })
      (log ++ p.closing)
  | opened (size : UInt64) (id : CursorId) (hwants : Wants src p size)
      (hid : id.1 = (log ++ p.closing).length) :
    Refreshed b request src p log (.ok (), { p with current := some ⟨b, id⟩, lastSize := size })
      (log ++ p.closing ++ [.opened (request size p.lastToken) [id]])
  | refused (size : UInt64) (e : Failure) (hwants : Wants src p size) :
    Refreshed b request src p log (.error e, { p with current := none })
      (log ++ p.closing ++ [.opened (request size p.lastToken) []])

theorem run_closeCurrent (p : Pager (Watched ι α)) (log : CursorLog ι α) :
    (closeCurrent p : Watching ι α _).run log = ({ p with current := none }, log ++ p.closing) := by
  unfold closeCurrent closing ids
  cases hcurrent : p.current with
  | none =>
    have hsame : { p with current := none } = p := by rw [← hcurrent]
    rw [hsame]
    exact congrArg (p, ·) (List.append_nil log).symm
  | some c => rfl

theorem run_close (p : Pager (Watched ι α)) (log : CursorLog ι α) :
    (p.close : Watching ι α _).run log =
      ({ p with exhausted := true, current := none }, log ++ p.closing) :=
  run_closeCurrent { p with exhausted := true } log

/-- An open that is wanted, when the cursor that was held is closed. -/
theorem run_openWanted {size : UInt64} (log : CursorLog ι α)
    (hwants : Wants (b.pageSource request hasNext tokenOf) p size) :
    ∃ r log', (openWith (b.pageSource request hasNext tokenOf) { p with current := none } size).run
        (log ++ p.closing) = (r, log') ∧
      Refreshed b request (b.pageSource request hasNext tokenOf) p log r log' := by
  rw [openWith_eq, run_bind]
  obtain ⟨id, hid, hrun⟩ | ⟨e, hrun⟩ := b.run_openOne (request size p.lastToken) (log ++ p.closing)
  · refine ⟨_, _, ?_, .opened size id hwants hid⟩
    unfold Behaviour.pageSource
    rw [hrun]
    rfl
  · refine ⟨_, _, ?_, .refused size e hwants⟩
    unfold Behaviour.pageSource
    rw [hrun]
    rfl

/-- **What a pager does before it reads.** -/
theorem refresh_refreshed (p : Pager (Watched ι α)) (log : CursorLog ι α) :
    ∃ r log', (refresh (b.pageSource request hasNext tokenOf) p).run log = (r, log') ∧
      Refreshed b request (b.pageSource request hasNext tokenOf) p log r log' := by
  have hstep := refresh_refreshes (b.pageSource request hasNext tokenOf) p
  generalize refresh (b.pageSource request hasNext tokenOf) p = x at hstep
  cases hstep with
  | kept hwants hends => exact ⟨_, _, rfl, .kept hwants hends⟩
  | ended hends =>
    rw [run_bind, run_close]
    exact ⟨_, _, rfl, .ended hends⟩
  | opened size hwants =>
    rw [run_bind, run_closeCurrent]
    exact run_openWanted b request hasNext tokenOf log hwants

/-- **The ways in which asking for a page goes.** The source is not opened, so there is no page; there
is no cursor to read from; or a cursor is read, which gives a whole page, ends or fails. -/
inductive PageTurn (b : Behaviour ι α) (request : UInt64 → Option Bytes → ι)
    (src : PageSource (Watching ι α) (Watched ι α) α) (p : Pager (Watched ι α))
    (log : CursorLog ι α) :
    Except Failure (List α) × Pager (Watched ι α) → CursorLog ι α → Prop where
  | refused (e : Failure) (q : Pager (Watched ι α)) (log' : CursorLog ι α)
    (hrefresh : Refreshed b request src p log (.error e, q) log') :
    PageTurn b request src p log (.error e, q) log'
  | blank (q : Pager (Watched ι α)) (log' : CursorLog ι α)
    (hrefresh : Refreshed b request src p log (.ok (), q) log') (hnone : q.current = none) :
    PageTurn b request src p log (.ok [], q) log'
  | full (q : Pager (Watched ι α)) (log' : CursorLog ι α)
    (hrefresh : Refreshed b request src p log (.ok (), q) log') (c : Watched ι α)
    (hcurrent : q.current = some c) (page : List α) (hlength : page.length = q.lastSize.toNat) :
    PageTurn b request src p log (.ok page, turnPage src q page) (log' ++ itemsRead c.id page)
  | ended (q : Pager (Watched ι α)) (log' : CursorLog ι α)
    (hrefresh : Refreshed b request src p log (.ok (), q) log') (c : Watched ι α)
    (hcurrent : q.current = some c) (page : List α) (hlength : page.length < q.lastSize.toNat) :
    PageTurn b request src p log
      (.ok page, { turnPage src q page with exhausted := true, current := none })
      (log' ++ itemsRead c.id page ++ [.read c.id (.ok none)] ++ [.closed c.id])
  | failed (q : Pager (Watched ι α)) (log' : CursorLog ι α)
    (hrefresh : Refreshed b request src p log (.ok (), q) log') (c : Watched ι α)
    (hcurrent : q.current = some c) (items : List α) (e : Failure)
    (hlength : items.length < q.lastSize.toNat) :
    PageTurn b request src p log (.error e, q)
      (log' ++ itemsRead c.id items ++ [.read c.id (.error e)])

/-- What a pager comes to once it has seen to its cursor: nothing is read if that failed or left it
without a cursor, and otherwise its cursor is read. -/
inductive Drawn (src : PageSource (Watching ι α) (Watched ι α) α) (q : Pager (Watched ι α)) :
    Except Failure Unit → Except Failure (List α) × Pager (Watched ι α) → CursorLog ι α → Prop where
  | refused (e : Failure) : Drawn src q (.error e) (.error e, q) []
  | blank (hnone : q.current = none) : Drawn src q (.ok ()) (.ok [], q) []
  | full (c : Watched ι α) (hcurrent : q.current = some c) (page : List α)
    (hlength : page.length = q.lastSize.toNat) :
    Drawn src q (.ok ()) (.ok page, turnPage src q page) (itemsRead c.id page)
  | ended (c : Watched ι α) (hcurrent : q.current = some c) (page : List α)
    (hlength : page.length < q.lastSize.toNat) :
    Drawn src q (.ok ()) (.ok page, { turnPage src q page with exhausted := true, current := none })
      (itemsRead c.id page ++ [.read c.id (.ok none)] ++ [.closed c.id])
  | failed (c : Watched ι α) (hcurrent : q.current = some c) (items : List α) (e : Failure)
    (hlength : items.length < q.lastSize.toNat) :
    Drawn src q (.ok ()) (.error e, q) (itemsRead c.id items ++ [.read c.id (.error e)])

/-- **A pager sees to its cursor, and then reads from it.** -/
theorem nextPage_drawn (p : Pager (Watched ι α)) (log : CursorLog ι α) :
    ∃ result q log' r events,
      (refresh (b.pageSource request hasNext tokenOf) p).run log = ((result, q), log') ∧
      Refreshed b request (b.pageSource request hasNext tokenOf) p log (result, q) log' ∧
      (nextPage (b.pageSource request hasNext tokenOf) p).run log = (r, log' ++ events) ∧
      Drawn (b.pageSource request hasNext tokenOf) q result r events := by
  obtain ⟨⟨result, q⟩, log', hrun, hrefresh⟩ := refresh_refreshed b request hasNext tokenOf p log
  refine ⟨result, q, log', ?_⟩
  rw [nextPage_eq, run_bind, hrun]
  have hquiet : log' ++ ([] : CursorLog ι α) = log' := List.append_nil log'
  cases result with
  | error e => exact ⟨_, [], rfl, hrefresh, hquiet.symm ▸ rfl, .refused e⟩
  | ok _ =>
    dsimp only
    unfold draw
    cases hcurrent : q.current with
    | none => exact ⟨_, [], rfl, hrefresh, hquiet.symm ▸ rfl, .blank hcurrent⟩
    | some c =>
      have hsame : { q with current := some c } = q := by rw [← hcurrent]
      obtain ⟨result, log'', hrun, hread⟩ := run_read q.lastSize.toNat c log'
      dsimp only
      rw [run_bind, hrun]
      cases hread with
      | full page hlength =>
        dsimp only
        rw [hsame]
        exact ⟨_, _, rfl, hrefresh, rfl, .full c hcurrent page hlength⟩
      | ended page hlength =>
        refine ⟨_, _, rfl, hrefresh, ?_, .ended c hcurrent page hlength⟩
        dsimp only
        rw [if_pos rfl, run_bind, ← List.append_assoc, ← List.append_assoc]
        rfl
      | failed items e hlength =>
        dsimp only
        rw [hsame, List.append_assoc]
        exact ⟨_, _, rfl, hrefresh, rfl, .failed c hcurrent items e hlength⟩

variable {b request} in
/-- The ways in which asking for a page goes are those in which a pager sees to its cursor, and then those
in which it reads from it. -/
theorem pageTurn_iff {r : Except Failure (List α) × Pager (Watched ι α)} {log' : CursorLog ι α} :
    PageTurn b request src p log r log' ↔ ∃ result q before events,
      Refreshed b request src p log (result, q) before ∧ Drawn src q result r events ∧
        log' = before ++ events := by
  constructor
  · intro h
    cases h with
    | refused e q _ hrefresh =>
      exact ⟨_, q, _, [], hrefresh, .refused e, (List.append_nil _).symm⟩
    | blank q _ hrefresh hnone =>
      exact ⟨_, q, _, [], hrefresh, .blank hnone, (List.append_nil _).symm⟩
    | full q _ hrefresh c hcurrent page hlength =>
      exact ⟨_, q, _, _, hrefresh, .full c hcurrent page hlength, rfl⟩
    | ended q _ hrefresh c hcurrent page hlength =>
      refine ⟨_, q, _, _, hrefresh, .ended c hcurrent page hlength, ?_⟩
      rw [← List.append_assoc, ← List.append_assoc]
    | failed q _ hrefresh c hcurrent items e hlength =>
      refine ⟨_, q, _, _, hrefresh, .failed c hcurrent items e hlength, ?_⟩
      rw [← List.append_assoc]
  · rintro ⟨result, q, before, events, hrefresh, hdrawn, rfl⟩
    cases hdrawn with
    | refused e =>
      rw [List.append_nil]
      exact .refused e q before hrefresh
    | blank hnone =>
      rw [List.append_nil]
      exact .blank q before hrefresh hnone
    | full c hcurrent page hlength => exact .full q before hrefresh c hcurrent page hlength
    | ended c hcurrent page hlength =>
      rw [← List.append_assoc, ← List.append_assoc]
      exact .ended q before hrefresh c hcurrent page hlength
    | failed c hcurrent items e hlength =>
      rw [← List.append_assoc]
      exact .failed q before hrefresh c hcurrent items e hlength

/-- **Asking for a page** goes in one of these ways. -/
theorem nextPage_pageTurn (p : Pager (Watched ι α)) (log : CursorLog ι α) :
    ∃ r log', (nextPage (b.pageSource request hasNext tokenOf) p).run log = (r, log') ∧
      PageTurn b request (b.pageSource request hasNext tokenOf) p log r log' := by
  obtain ⟨result, q, before, r, events, -, hrefresh, hrun, hdrawn⟩ :=
    nextPage_drawn b request hasNext tokenOf p log
  exact ⟨r, _, hrun, pageTurn_iff.2 ⟨result, q, before, events, hrefresh, hdrawn, rfl⟩⟩

variable {b request}

/-- Without the cursor of the pager none is open. -/
theorem tended_closing (htended : Tended log p.ids) : Tended (log ++ p.closing) [] := by
  unfold closing
  unfold ids at htended ⊢
  cases hcurrent : p.current with
  | none =>
    rw [hcurrent] at htended
    exact (List.append_nil log).symm ▸ htended
  | some c =>
    rw [hcurrent] at htended
    have htended : Tended log ([] ++ c.id :: []) := htended
    exact htended.closed

/-- Before it reads, a pager closes the cursor it held if it gets another one or none. -/
theorem Refreshed.tended {r : Except Failure Unit × Pager (Watched ι α)} {log' : CursorLog ι α}
    (h : Refreshed b request src p log r log') (htended : Tended log p.ids) :
    Tended log' r.2.ids := by
  have hclosed := tended_closing htended
  cases h with
  | kept hwants hends => exact htended
  | ended hends => exact hclosed
  | opened size id hwants hid => exact hclosed.opened _ (List.nodup_singleton id) (by simpa using hid)
  | refused size e hwants => exact hclosed.opened _ List.nodup_nil (by simp)

theorem tended_itemsRead {id : CursorId} (htended : Tended log [id]) (items : List α) :
    Tended (log ++ itemsRead id items) [id] := by
  induction items generalizing log with
  | nil => exact (List.append_nil log).symm ▸ htended
  | cons a items ih =>
    have hrest := ih (htended.read (List.mem_singleton_self id) (.ok (some a)))
    rw [List.append_assoc] at hrest
    exact hrest

/-- The cursor that a pager reads from stays open, unless its end is found. -/
theorem Drawn.tended {q : Pager (Watched ι α)} {result : Except Failure Unit}
    {r : Except Failure (List α) × Pager (Watched ι α)} {events : CursorLog ι α}
    (h : Drawn src q result r events) (htended : Tended log q.ids) :
    Tended (log ++ events) r.2.ids := by
  have hread : ∀ {c : Watched ι α}, q.current = some c → q.ids = [c.id] ∧ ∀ items,
      Tended (log ++ itemsRead c.id items) [c.id] := by
    intro c hcurrent
    have hids : q.ids = [c.id] := by
      unfold ids
      rw [hcurrent]
      rfl
    rw [hids] at htended
    exact ⟨hids, tended_itemsRead htended⟩
  cases h with
  | refused e => exact (List.append_nil log).symm ▸ htended
  | blank hnone => exact (List.append_nil log).symm ▸ htended
  | full c hcurrent page hlength =>
    obtain ⟨hids, hitems⟩ := hread hcurrent
    have hids : (turnPage src q page).ids = [c.id] := hids
    rw [hids]
    exact hitems page
  | ended c hcurrent page hlength =>
    obtain ⟨-, hitems⟩ := hread hcurrent
    have hended : Tended _ ([] ++ c.id :: []) :=
      (hitems page).read (List.mem_singleton_self c.id) (.ok none)
    rw [← List.append_assoc, ← List.append_assoc]
    exact hended.closed
  | failed c hcurrent items e hlength =>
    obtain ⟨hids, hitems⟩ := hread hcurrent
    rw [hids, ← List.append_assoc]
    exact (hitems items).read (List.mem_singleton_self c.id) (.error e)

/-- **The cursor of a pager is the one that is open.** -/
theorem PageTurn.tended {r : Except Failure (List α) × Pager (Watched ι α)} {log' : CursorLog ι α}
    (h : PageTurn b request src p log r log') (htended : Tended log p.ids) : Tended log' r.2.ids := by
  obtain ⟨result, q, before, events, hrefresh, hdrawn, rfl⟩ := pageTurn_iff.1 h
  exact hdrawn.tended (hrefresh.tended htended)

/-- One call after others. -/
theorem run_then_call {q : Pager (Watched ι α)} {calls : List Call}
    {replies : List (Except Failure (List α))} {log' : CursorLog ι α}
    (hrun : (run src p calls).run [] = ((replies, q), log)) {c : Call}
    {r : Option (Except Failure (List α)) × Pager (Watched ι α)}
    (hcall : (call src q c).run log = (r, log')) :
    (run src p (calls ++ [c])).run [] = ((replies ++ r.1.toList, r.2), log') := by
  rw [run_snoc, run_bind, hrun]
  dsimp only
  rw [run_bind, hcall]
  rfl

end Pager

end QuorumStore
