import QuorumStore.Proofs.Scan.Turns

/-!
# The sizes of pages

A pager asks its source for pages of one size until an item was returned. From then on it asks for pages
of its best size, whenever that is off the size of the last page opened by a factor of two. Opens may be
refused and reads may fail meanwhile, and reports may be of any size.

The factor is found by doubling the last size, which is exact for sizes without the topmost bit. Large
sizes come from many rows in a page or from a large bound, so a run is `Pager.Modest` if it returns fewer
than 2^63 rows, and if reads fail only under a bound below 2^63.

* `Pager.toNat_bestSize`: the best size without a bound on numbers.
* `Pager.PageTurn.asks`: what size a pager asks for, and how the page it returns came about.
* `Pager.PageTurn.counted`, `Pager.PageTurn.filled`: its counters, and the size of the last page opened.
* `Pager.call_reckoned`, `Pager.run_reckoned`: both after a call, and after any number of them.
* `Pager.run_sized`: **the sizes that are asked for, and those of the pages.**
-/

namespace QuorumStore

open CursorLog

/-- A page size, and the token that is read on from. -/
abbrev PageRequest := UInt64 × Option Bytes

namespace CursorLog

variable {α : Type} {log log' : CursorLog PageRequest α}

/-- The opens of a log: the page size, and the cursors given. -/
def opens (log : CursorLog PageRequest α) : List (UInt64 × List CursorId) :=
  log.filterMap fun
    | .opened request ids => some (request.1, ids)
    | _ => none

/-- The page sizes that opens asked for. -/
def asked (log : CursorLog PageRequest α) : List UInt64 := log.opens.map Prod.fst

/-- The page sizes of the opens that gave a cursor. -/
def granted (log : CursorLog PageRequest α) : List UInt64 :=
  (log.opens.filter fun o => !o.2.isEmpty).map Prod.fst

/-- No read failed. -/
def Faultless (log : CursorLog PageRequest α) : Prop := ∀ id e, .read id (.error e) ∉ log

@[simp] theorem opens_append : opens (log ++ log') = opens log ++ opens log' := List.filterMap_append

@[simp] theorem opens_opened (request : PageRequest) (ids : List CursorId) :
    opens [(.opened request ids : CursorEvent PageRequest α)] = [(request.1, ids)] := rfl

@[simp] theorem opens_read (id : CursorId) (result : Except Failure (Option α)) :
    opens [(.read id result : CursorEvent PageRequest α)] = [] := rfl

@[simp] theorem opens_closed (id : CursorId) :
    opens [(.closed id : CursorEvent PageRequest α)] = [] := rfl

@[simp] theorem opens_itemsRead (id : CursorId) (items : List α) :
    opens (Watching.itemsRead id items : CursorLog PageRequest α) = [] := by
  induction items with
  | nil => rfl
  | cons a items ih => exact ih

@[simp] theorem granted_append : granted (log ++ log') = granted log ++ granted log' := by
  simp [granted]

theorem granted_append_quiet (h : opens log' = []) : granted (log ++ log') = granted log := by
  simp [granted, h]

theorem asked_append_quiet (h : opens log' = []) : asked (log ++ log') = asked log := by
  simp [asked, h]

theorem Faultless.of_append (h : Faultless (log ++ log')) : Faultless log := fun id e hmem =>
  h id e (List.mem_append_left _ hmem)

end CursorLog

namespace Pager

open Watching

section Sizes

variable {σ : Type} {p : Pager σ} {best last : UInt64}

/-- The best size, reckoned without a bound on numbers. -/
def idealSize (first largest returned live : Nat) : Nat :=
  if returned = 0 then first
  else min largest (if live = 0 then 4 * returned else (first * returned) ⌈/⌉ live)

/-- **The best size is the ideal one**, as long as the products it is made of are 64-bit numbers. -/
theorem toNat_bestSize (hscaled : p.firstSize.toNat * p.returned.toNat < UInt64.size)
    (hfour : 4 * p.returned.toNat < UInt64.size) :
    p.bestSize.toNat =
      idealSize p.firstSize.toNat p.max.toNat p.returned.toNat p.notDeleted.toNat := by
  have hzero : ∀ n : UInt64, n = 0 ↔ n.toNat = 0 := fun n => (UInt64.toNat_inj (b := 0)).symm
  unfold idealSize
  by_cases hreturned : p.returned = 0
  · rw [if_pos ((hzero _).1 hreturned)]
    exact congrArg UInt64.toNat (if_pos hreturned)
  · have hsize : p.uncutSize.toNat = if p.notDeleted.toNat = 0 then 4 * p.returned.toNat
        else (p.firstSize.toNat * p.returned.toNat) ⌈/⌉ p.notDeleted.toNat := by
      unfold uncutSize
      by_cases hlive : p.notDeleted = 0
      · rw [Nat.mul_comm] at hfour
        rw [if_pos hlive, if_pos ((hzero _).1 hlive), toNat_saturatingMul hfour, Nat.mul_comm]
        rfl
      · rw [if_neg hlive, if_neg (mt (hzero _).2 hlive), toNat_divCeil hlive,
          toNat_saturatingMul hscaled]
    rw [bestSize_of_returned hreturned, if_neg (mt (hzero _).2 hreturned), ← hsize]
    split
    · rename_i hle
      exact (Nat.min_eq_right (UInt64.le_iff_toNat_le.1 hle)).symm
    · rename_i hle
      rw [UInt64.le_iff_toNat_le] at hle
      exact (Nat.min_eq_left (Nat.le_of_not_le hle)).symm

/-- Two sizes are off by a factor of two or more. -/
def FarApart (best last : UInt64) : Prop :=
  2 * last.toNat ≤ best.toNat ∨ 2 * best.toNat ≤ last.toNat

theorem shouldReopen_iff : shouldReopen best last = true ↔
    last.toNat * 2 % UInt64.size ≤ best.toNat ∨ best.toNat ≤ last.toNat / 2 := by
  simp only [shouldReopen, Bool.or_eq_true, decide_eq_true_eq, UInt64.le_iff_toNat_le,
    UInt64.toNat_mul, UInt64.toNat_div]
  rfl

theorem shouldReopen_of_farApart (h : FarApart best last) : shouldReopen best last = true := by
  have hbound : best.toNat < UInt64.size := best.toNat_lt
  rw [shouldReopen_iff]
  rcases h with h | h
  · left
    rwa [Nat.mod_eq_of_lt (by omega), Nat.mul_comm]
  · right
    omega

/-- As long as doubling the last size does not leave the 64-bit numbers. -/
theorem farApart_of_shouldReopen (hlast : 2 * last.toNat < UInt64.size)
    (h : shouldReopen best last = true) : FarApart best last := by
  rw [shouldReopen_iff] at h
  rcases h with h | h
  · left
    rwa [Nat.mul_comm, Nat.mod_eq_of_lt hlast] at h
  · right
    omega

end Sizes

section Turns

variable {α : Type} {b : Behaviour PageRequest α} {src : PageSource (Watching PageRequest α)
    (Watched PageRequest α) α} {p q : Pager (Watched PageRequest α)}
  {log log' : CursorLog PageRequest α} {first largest : UInt64} {rows live : Nat}

@[simp] theorem opens_closing : opens p.closing = [] := by
  unfold closing ids
  cases p.current with
  | none => rfl
  | some c => rfl

/-- A pager that is asked for a page asks its source for pages of the size it wants, or for nothing. -/
def Asks (src : PageSource (Watching PageRequest α) (Watched PageRequest α) α)
    (p : Pager (Watched PageRequest α)) (events : CursorLog PageRequest α) : Prop :=
  (∀ size, ¬Wants src p size) ∧ asked events = [] ∨
    ∃ size, Wants src p size ∧ asked events = [size]

theorem Asks.append_quiet (h : Asks src p log) (hquiet : opens log' = []) :
    Asks src p (log ++ log') := by
  unfold Asks
  rw [asked_append_quiet hquiet]
  exact h

/-- How a page comes about. It has the size of the open page unless the cursor ended first, or there
was no cursor to read. -/
inductive Fills (q : Pager (Watched PageRequest α)) (events : CursorLog PageRequest α)
    (page : List α) : Prop where
  | full (id : CursorId) (hreads : itemsRead id page <:+ events)
    (hlength : page.length = q.lastSize.toNat)
  | ended (id : CursorId)
    (hreads : itemsRead id page ++ [.read id (.ok none)] ++ [.closed id] <:+ events)
    (hlength : page.length < q.lastSize.toNat)
  | blank (hpage : page = []) (hnone : q.current = none)
    (hreads : ∀ id result, .read id result ∉ events)

theorem Refreshed.asks {r : Except Failure Unit × Pager (Watched PageRequest α)}
    (h : Refreshed b Prod.mk src p log r log') :
    ∃ events, log' = log ++ events ∧ Asks src p events ∧ ∀ id result, .read id result ∉ events := by
  have hclosing : ∀ id result, .read id result ∉ p.closing := by
    intro id result hmem
    obtain ⟨other, -, heq⟩ := List.mem_map.1 hmem
    cases heq
  cases h with
  | kept hwants hends => exact ⟨[], (List.append_nil log).symm, Or.inl ⟨hwants, rfl⟩, by simp⟩
  | ended hends =>
    refine ⟨p.closing, rfl, Or.inl ⟨fun size hwants => ?_, by simp [asked]⟩, hclosing⟩
    obtain ⟨-, token, htoken, hlast⟩ := hends
    rw [(hwants.of_token htoken).1] at hlast
    cases hlast
  | opened size id hwants hid =>
    exact ⟨_, List.append_assoc _ _ _, Or.inr ⟨size, hwants, by simp [asked]⟩, by simpa using hclosing⟩
  | refused size e hwants =>
    exact ⟨_, List.append_assoc _ _ _, Or.inr ⟨size, hwants, by simp [asked]⟩, by simpa using hclosing⟩

/-- **What a pager asks for, and how the page it returns came about.** -/
theorem PageTurn.asks {r : Except Failure (List α) × Pager (Watched PageRequest α)}
    (h : PageTurn b Prod.mk src p log r log') :
    ∃ events, log' = log ++ events ∧ Asks src p events ∧
      ∀ page, r.1 = .ok page → Fills r.2 events page := by
  cases h with
  | refused e q _ hrefresh =>
    obtain ⟨events, rfl, hasks, -⟩ := hrefresh.asks
    exact ⟨events, rfl, hasks, fun page hpage => by cases hpage⟩
  | blank q _ hrefresh hnone =>
    obtain ⟨events, rfl, hasks, hreads⟩ := hrefresh.asks
    refine ⟨events, rfl, hasks, fun page hpage => ?_⟩
    cases hpage
    exact .blank rfl hnone hreads
  | full q _ hrefresh c hcurrent page hlength =>
    obtain ⟨events, rfl, hasks, -⟩ := hrefresh.asks
    refine ⟨events ++ itemsRead c.id page, List.append_assoc _ _ _,
      hasks.append_quiet (opens_itemsRead _ _), fun page' hpage => ?_⟩
    cases hpage
    exact .full c.id (List.suffix_append _ _) hlength
  | ended q _ hrefresh c hcurrent page hlength =>
    obtain ⟨events, rfl, hasks, -⟩ := hrefresh.asks
    refine ⟨events ++ (itemsRead c.id page ++ [.read c.id (.ok none)] ++ [.closed c.id]), ?_,
      hasks.append_quiet ?_, fun page' hpage => ?_⟩
    · simp only [List.append_assoc]
    · rw [opens_append, opens_append, opens_itemsRead]
      rfl
    · cases hpage
      exact .ended c.id (List.suffix_append _ _) hlength
  | failed q _ hrefresh c hcurrent items e hlength =>
    obtain ⟨events, rfl, hasks, -⟩ := hrefresh.asks
    refine ⟨events ++ (itemsRead c.id items ++ [.read c.id (.error e)]), ?_,
      hasks.append_quiet (by simp), fun page hpage => by cases hpage⟩
    simp only [List.append_assoc]

end Turns

section Counters

variable {σ : Type} {p q : Pager σ} {first largest : UInt64} {rows live : Nat} {sizes : List UInt64}

/-- The counters of a pager that has returned some rows, of which some were reported live, and whose
opens with these page sizes were granted. -/
structure Counted (first largest : UInt64) (rows live : Nat) (p : Pager σ) (sizes : List UInt64) :
    Prop where
  firstSize : p.firstSize = first
  max : p.max = if largest = 0 then 1 else largest
  returned : p.returned = UInt64.ofNat rows
  notDeleted : p.notDeleted = UInt64.ofNat live
  unread : p.lastToken = none ↔ rows = 0
  lastSize : p.lastSize = sizes.getLast?.getD first
  started : p.lastToken ≠ none ∨ p.current ≠ none → sizes ≠ []

namespace Counted

theorem start (hp : of? first largest = .ok p) : Counted first largest 0 0 p [] := by
  rw [(eq_of_of? hp).2]
  exact ⟨rfl, rfl, rfl, rfl, by simp, rfl, by simp⟩

theorem toNat_max (h : Counted first largest rows live p sizes) :
    p.max.toNat = Max.max largest.toNat 1 := by
  rw [h.max]
  split
  · rename_i hzero
    rw [hzero]
    rfl
  · rename_i hzero
    exact (Nat.max_eq_left (toNat_pos hzero)).symm

theorem max_ne_zero (h : Counted first largest rows live p sizes) : p.max ≠ 0 := by
  rw [h.max]
  split
  · decide
  · assumption

/-- With its cursor closed a pager has the same counters. -/
theorem closed (h : Counted first largest rows live p sizes) (ended : Bool) :
    Counted first largest rows live ({ p with exhausted := ended, current := none } : Pager σ) sizes :=
  ⟨h.firstSize, h.max, h.returned, h.notDeleted, h.unread, h.lastSize,
    fun hstarted => h.started (hstarted.imp_right (absurd rfl))⟩

theorem opened (h : Counted first largest rows live p sizes) (c : σ) (size : UInt64) :
    Counted first largest rows live { p with current := some c, lastSize := size } (sizes ++ [size]) :=
  ⟨h.firstSize, h.max, h.returned, h.notDeleted, h.unread, by simp, by simp⟩

theorem mark (h : Counted first largest rows live p sizes) (more : UInt64) :
    Counted first largest rows (live + more.toNat) (p.mark more) sizes := by
  refine ⟨h.firstSize, h.max, h.returned, ?_, h.unread, h.lastSize, h.started⟩
  unfold Pager.mark
  rw [h.notDeleted, UInt64.ofNat_add, UInt64.ofNat_toNat]

theorem turnPage {m : Type → Type} {α : Type} {src : PageSource m σ α}
    (h : Counted first largest rows live p sizes) (hcurrent : p.current ≠ none) (page : List α) :
    Counted first largest (rows + page.length) live (turnPage src p page) sizes := by
  refine ⟨h.firstSize, h.max, ?_, h.notDeleted, ?_, h.lastSize, fun _ => h.started (Or.inr hcurrent)⟩
  · unfold Pager.turnPage
    rw [h.returned, UInt64.ofNat_add]
  · unfold Pager.turnPage
    cases page with
    | nil => exact h.unread
    | cons a page => simp

end Counted

end Counters

section Turns

variable {α : Type} {b : Behaviour PageRequest α} {src : PageSource (Watching PageRequest α)
    (Watched PageRequest α) α} {p q : Pager (Watched PageRequest α)}
  {log log' : CursorLog PageRequest α} {first largest : UInt64} {rows live : Nat}

theorem Refreshed.counted {r : Except Failure Unit × Pager (Watched PageRequest α)}
    (h : Refreshed b Prod.mk src p log r log') (hp : Counted first largest rows live p log.granted) :
    Counted first largest rows live r.2 log'.granted := by
  cases h with
  | kept hwants hends => exact hp
  | ended hends =>
    rw [granted_append_quiet opens_closing]
    exact hp.closed true
  | opened size id hwants hid =>
    rw [granted_append, granted_append_quiet opens_closing]
    exact hp.opened ⟨b, id⟩ size
  | refused size e hwants =>
    rw [granted_append, granted_append_quiet opens_closing]
    exact (List.append_nil log.granted).symm ▸ hp.closed p.exhausted

/-- **Counters after a page was asked for.** -/
theorem PageTurn.counted {r : Except Failure (List α) × Pager (Watched PageRequest α)}
    (h : PageTurn b Prod.mk src p log r log') (hp : Counted first largest rows live p log.granted) :
    Counted first largest (rows + (pagesOf [r.1]).length) live r.2 log'.granted := by
  cases h with
  | refused e q _ hrefresh => exact hrefresh.counted hp
  | blank q _ hrefresh hnone => exact hrefresh.counted hp
  | full q _ hrefresh c hcurrent page hlength =>
    rw [granted_append_quiet (opens_itemsRead _ _), pagesOf_ok]
    exact (hrefresh.counted hp).turnPage (by simp [hcurrent]) page
  | ended q _ hrefresh c hcurrent page hlength =>
    rw [granted_append_quiet (opens_closed _), granted_append_quiet (opens_read _ _),
      granted_append_quiet (opens_itemsRead _ _), pagesOf_ok]
    exact ((hrefresh.counted hp).turnPage (by simp [hcurrent]) page).closed true
  | failed q _ hrefresh c hcurrent items e hlength =>
    rw [granted_append_quiet (opens_read _ _), granted_append_quiet (opens_itemsRead _ _)]
    exact hrefresh.counted hp

/-- The last page opened was filled by the rows returned so far. If reads fail it may be larger, but not
than the largest. -/
def Filled (rows : Nat) (p : Pager (Watched PageRequest α)) (log : CursorLog PageRequest α) : Prop :=
  rows < UInt64.size → p.lastToken ≠ none → p.exhausted = false →
    p.lastSize.toNat ≤ rows ∨ ¬log.Faultless ∧ p.lastSize ≤ p.max

/-- After rows were returned no page is opened that is larger than the largest. -/
theorem Counted.wants_le_max {sizes : List UInt64} {size : UInt64}
    (h : Counted first largest rows live p sizes) (hrows : rows < UInt64.size)
    (htoken : p.lastToken ≠ none) (hwants : Wants src p size) : size ≤ p.max := by
  obtain ⟨token, htoken'⟩ := Option.ne_none_iff_exists'.1 htoken
  rw [(hwants.of_token htoken').2.2]
  refine bestSize_le_max fun hzero => htoken (h.unread.2 ?_)
  rw [h.returned] at hzero
  have hzero := congrArg UInt64.toNat hzero
  rwa [UInt64.toNat_ofNat_of_lt' hrows] at hzero

theorem Filled.append (h : Filled rows p log) (events : CursorLog PageRequest α) :
    Filled rows p (log ++ events) := fun hrows htoken hopen =>
  (h hrows htoken hopen).imp_right fun hfault =>
    ⟨fun hfaultless => hfault.1 hfaultless.of_append, hfault.2⟩

/-- **The last page opened after another page was asked for.** -/
theorem PageTurn.filled {r : Except Failure (List α) × Pager (Watched PageRequest α)}
    (h : PageTurn b Prod.mk src p log r log') (hp : Counted first largest rows live p log.granted)
    (hfilled : Filled rows p log) : Filled (rows + (pagesOf [r.1]).length) r.2 log' := by
  cases h with
  | refused e q _ hrefresh =>
    cases hrefresh with
    | refused size e hwants =>
      rw [List.append_assoc]
      exact hfilled.append _
  | blank q _ hrefresh hnone =>
    cases hrefresh with
    | kept hwants hends => exact hfilled
    | ended hends =>
      intro hrows htoken hopen
      cases hopen
    | opened size id hwants hid => cases hnone
  | full q _ hrefresh c hcurrent page hlength =>
    intro hrows htoken hopen
    left
    rw [pagesOf_ok, hlength]
    exact Nat.le_add_left _ _
  | ended q _ hrefresh c hcurrent page hlength =>
    intro hrows htoken hopen
    cases hopen
  | failed q before hrefresh c hcurrent items e hlength =>
    intro hrows htoken hopen
    have hfault : ¬Faultless (before ++ itemsRead c.id items ++ [.read c.id (.error e)]) :=
      fun hfaultless => hfaultless c.id e (List.mem_append_right _ (List.mem_singleton_self _))
    cases hrefresh with
    | kept hwants hends =>
      exact (hfilled hrows htoken hopen).imp_right fun hbefore => ⟨hfault, hbefore.2⟩
    | ended hends => cases hcurrent
    | opened size id hwants hid => exact Or.inr ⟨hfault, hp.wants_le_max hrows htoken hwants⟩

end Turns

/-- How many rows a call reports to be live. -/
def Call.live : Call → Nat
  | .mark live => live.toNat
  | _ => 0

/-- How many rows calls report to be live. -/
def reported (calls : List Call) : Nat := (calls.map Call.live).sum

section Runs

variable {α : Type} {src : PageSource (Watching PageRequest α) (Watched PageRequest α) α}
  {p q : Pager (Watched PageRequest α)} {log events : CursorLog PageRequest α} {first largest : UInt64}
  {rows live : Nat} {reply : Option (Except Failure (List α))} {c : Call}

/-- What calls have made of the counters of a pager. -/
structure Reckoned (first largest : UInt64) (rows live : Nat) (p : Pager (Watched PageRequest α))
    (log : CursorLog PageRequest α) : Prop where
  counted : Counted first largest rows live p log.granted
  filled : Filled rows p log

/-- What a call asks of the source, and what it returns. -/
structure Serves (src : PageSource (Watching PageRequest α) (Watched PageRequest α) α)
    (p : Pager (Watched PageRequest α)) (c : Call) (reply : Option (Except Failure (List α)))
    (q : Pager (Watched PageRequest α)) (events : CursorLog PageRequest α) : Prop where
  asks : c = .next → Asks src p events
  quiet : c ≠ .next → asked events = []
  fills : ∀ page, reply = some (.ok page) → Fills q events page

/-- **What a call does to the counters of a pager.** -/
theorem call_reckoned (b : Behaviour PageRequest α) (hasNext : Bytes → Bool)
    (tokenOf : List α → Bytes) (h : Reckoned first largest rows live p log) (c : Call) :
    ∃ reply q events,
      (call (b.pageSource Prod.mk hasNext tokenOf) p c).run log = ((reply, q), log ++ events) ∧
      Reckoned first largest (rows + (pagesOf reply.toList).length) (live + c.live) q (log ++ events) ∧
      Serves (b.pageSource Prod.mk hasNext tokenOf) p c reply q events := by
  cases c with
  | next =>
    obtain ⟨⟨result, q⟩, log', hrun, hturn⟩ := nextPage_pageTurn b Prod.mk hasNext tokenOf p log
    obtain ⟨events, rfl, hasks, hfills⟩ := hturn.asks
    refine ⟨some result, q, events, ?_, ⟨hturn.counted h.counted, hturn.filled h.counted h.filled⟩,
      fun _ => hasks, fun hne => absurd rfl hne, fun page hpage => hfills page (Option.some.inj hpage)⟩
    unfold call
    rw [run_bind, hrun]
    rfl
  | mark more =>
    have hnone : log ++ [] = log := List.append_nil log
    refine ⟨none, p.mark more, [], by rw [hnone]; rfl, ?_, by simp, fun _ => rfl, by simp⟩
    rw [hnone]
    exact ⟨h.counted.mark more, h.filled⟩
  | close =>
    refine ⟨none, { p with exhausted := true, current := none }, p.closing, ?_, ⟨?_, ?_⟩, by simp,
      fun _ => by simp [asked], by simp⟩
    · unfold call
      rw [run_bind, run_close]
      rfl
    · rw [granted_append_quiet opens_closing]
      exact h.counted.closed true
    · intro hrows htoken hopen
      cases hopen

theorem length_pagesOf_append (replies more : List (Except Failure (List α))) :
    (pagesOf (replies ++ more)).length = (pagesOf replies).length + (pagesOf more).length := by
  simp [pagesOf]

theorem reported_snoc (calls : List Call) (c : Call) :
    reported (calls ++ [c]) = reported calls + c.live := by
  simp [reported]

/-- **What any number of calls do to the counters of a pager.** -/
theorem run_reckoned (b : Behaviour PageRequest α) (hasNext : Bytes → Bool) (tokenOf : List α → Bytes)
    (hp : of? first largest = .ok p) (calls : List Call) :
    ∃ replies q log,
      (run (b.pageSource Prod.mk hasNext tokenOf) p calls).run [] = ((replies, q), log) ∧
      Reckoned first largest (pagesOf replies).length (reported calls) q log := by
  -- from the end of the calls, since the counters speak of all of them
  induction calls using List.reverseRecOn with
  | nil =>
    have hcounted : Counted first largest 0 0 p [] := .start hp
    exact ⟨[], p, [], rfl, hcounted, fun _ htoken => absurd (hcounted.unread.2 rfl) htoken⟩
  | append_singleton calls c ih =>
    obtain ⟨replies, q, log, hrun, hreckoned⟩ := ih
    obtain ⟨reply, q', events, hcall, hreckoned', -⟩ := call_reckoned b hasNext tokenOf hreckoned c
    refine ⟨replies ++ reply.toList, q', log ++ events, run_then_call hrun hcall, ?_⟩
    rw [length_pagesOf_append, reported_snoc]
    exact hreckoned'

/-- The rows are counted without the topmost bit, and the largest size has none if a read failed. -/
def Modest (largest : UInt64) (rows : Nat) (log : CursorLog PageRequest α) : Prop :=
  2 * rows < UInt64.size ∧ (log.Faultless ∨ 2 * largest.toNat < UInt64.size)

/-- Doubling the size of the open page does not leave the 64-bit numbers. -/
theorem Reckoned.two_mul_lastSize_lt (h : Reckoned first largest rows live p log)
    (hmodest : Modest largest rows log) (htoken : p.lastToken ≠ none) (hopen : p.exhausted = false) :
    2 * p.lastSize.toNat < UInt64.size := by
  have hsize : UInt64.size = 2 ^ 64 := rfl
  have hrows := hmodest.1
  obtain hle | ⟨hfault, hle⟩ := h.filled (by omega) htoken hopen
  · omega
  · have hmax := hmodest.2.resolve_left hfault
    have hle := UInt64.le_iff_toNat_le.1 hle
    rw [h.counted.toNat_max] at hle
    omega

theorem Reckoned.toNat_bestSize (h : Reckoned first largest rows live p log)
    (hscaled : first.toNat * p.returned.toNat < UInt64.size)
    (hfour : 4 * p.returned.toNat < UInt64.size) :
    p.bestSize.toNat =
      idealSize first.toNat (Max.max largest.toNat 1) p.returned.toNat p.notDeleted.toNat := by
  rw [← h.counted.toNat_max]
  rw [← h.counted.firstSize] at hscaled ⊢
  exact Pager.toNat_bestSize hscaled hfour

/-- Once a token is at hand the last page opened has the size that the pager keeps. -/
theorem Reckoned.lastSize_granted (h : Reckoned first largest rows live p log)
    (htoken : p.lastToken ≠ none) : log.granted.getLast? = some p.lastSize := by
  obtain ⟨last, hlast⟩ := Option.ne_none_iff_exists'.1
    (mt List.getLast?_eq_none_iff.1 (h.counted.started (Or.inl htoken)))
  rw [h.counted.lastSize, hlast]
  rfl

/-- A size is asked for only by a pager that wants it. -/
theorem Serves.wants (h : Serves src p c reply q events) {size : UInt64}
    (hsize : size ∈ asked events) : Wants src p size := by
  by_cases hnext : c = .next
  · obtain ⟨-, hnone⟩ | ⟨wanted, hwants, hasked⟩ := h.asks hnext
    · rw [hnone] at hsize
      cases hsize
    · rw [hasked, List.mem_singleton] at hsize
      exact hsize ▸ hwants
  · rw [h.quiet hnext] at hsize
    cases hsize

/-- The sizes that a call asks for, and that of the page it returns, after other calls. -/
structure Sized (src : PageSource (Watching PageRequest α) (Watched PageRequest α) α)
    (first largest : UInt64) (calls : List Call) (replies : List (Except Failure (List α)))
    (p : Pager (Watched PageRequest α)) (log : CursorLog PageRequest α) (c : Call)
    (reply : Option (Except Failure (List α))) (q : Pager (Watched PageRequest α))
    (events : CursorLog PageRequest α) : Prop where
  returned : p.returned = UInt64.ofNat (pagesOf replies).length
  notDeleted : p.notDeleted = UInt64.ofNat (reported calls)
  lastSize : p.lastSize = log.granted.getLast?.getD first
  best : first.toNat * p.returned.toNat < UInt64.size → 4 * p.returned.toNat < UInt64.size →
    p.bestSize.toNat =
      idealSize first.toNat (Max.max largest.toNat 1) p.returned.toNat p.notDeleted.toNat
  /-- Until an item was returned, pages of the first size are asked for. -/
  unread : pagesOf replies = [] → ∀ size ∈ asked events, size = first
  /-- From then on sizes are positive, and not too large. -/
  inRange : pagesOf replies ≠ [] → (pagesOf replies).length < UInt64.size →
    ∀ size ∈ asked events, 1 ≤ size.toNat ∧ size.toNat ≤ Max.max largest.toNat 1
  /-- A page is opened only if its size is off that of the last page opened. -/
  farApart : pagesOf replies ≠ [] → Modest largest (pagesOf replies).length log →
    ∀ size ∈ asked events, ∃ last, log.granted.getLast? = some last ∧ FarApart size last
  /-- Whenever the best size is off that of the last page opened, such a page is asked for. -/
  reopens : c = .next → p.exhausted = false → ∀ token, p.lastToken = some token →
    src.hasNext token = true → FarApart p.bestSize p.lastSize → asked events = [p.bestSize]
  fills : ∀ page, reply = some (.ok page) → Fills q events page

/-- **Which sizes are asked for, and how large pages are**, whatever is refused or fails. -/
theorem run_sized (b : Behaviour PageRequest α) (hasNext : Bytes → Bool) (tokenOf : List α → Bytes)
    (hp : of? first largest = .ok p) (calls : List Call) (c : Call) :
    let src := b.pageSource Prod.mk hasNext tokenOf
    ∃ replies q log reply q' events, (run src p calls).run [] = ((replies, q), log) ∧
      (call src q c).run log = ((reply, q'), log ++ events) ∧
      Sized src first largest calls replies q log c reply q' events := by
  intro src
  obtain ⟨replies, q, log, hrun, hreckoned⟩ := run_reckoned b hasNext tokenOf hp calls
  obtain ⟨reply, q', events, hcall, -, hserves⟩ := call_reckoned b hasNext tokenOf hreckoned c
  have hcounted := hreckoned.counted
  have hfirst := (eq_of_of? hp).1
  have hread : pagesOf replies ≠ [] → q.lastToken ≠ none := fun hpages htoken =>
    hpages (List.eq_nil_of_length_eq_zero (hcounted.unread.1 htoken))
  -- what is asked for after rows were returned is the best size
  have hbest : pagesOf replies ≠ [] → ∀ size ∈ asked events,
      size = q.bestSize ∧ shouldReopen q.bestSize q.lastSize = true := by
    intro hpages size hsize
    obtain ⟨token, htoken⟩ := Option.ne_none_iff_exists'.1 (hread hpages)
    obtain ⟨-, hreopen, hbest⟩ := (hserves.wants hsize).of_token htoken
    exact ⟨hbest, hreopen⟩
  refine ⟨replies, q, log, reply, q', events, hrun, hcall, hcounted.returned, hcounted.notDeleted,
    hcounted.lastSize, hreckoned.toNat_bestSize, ?unread, ?inRange, ?farApart, ?reopens,
    hserves.fills⟩
  case unread =>
    intro hpages size hsize
    have htoken : q.lastToken = none := hcounted.unread.2 (by rw [hpages]; rfl)
    rw [((hserves.wants hsize).of_none htoken).2, hcounted.firstSize]
  case inRange =>
    intro hpages hrows size hsize
    have hle := hcounted.wants_le_max hrows (hread hpages) (hserves.wants hsize)
    refine ⟨?_, hcounted.toNat_max ▸ UInt64.le_iff_toNat_le.1 hle⟩
    rw [(hbest hpages size hsize).1]
    exact toNat_pos (bestSize_ne_zero (hcounted.firstSize ▸ hfirst) hcounted.max_ne_zero)
  case farApart =>
    intro hpages hmodest size hsize
    have htoken := hread hpages
    obtain ⟨rfl, hreopen⟩ := hbest hpages size hsize
    have hlast := hreckoned.two_mul_lastSize_lt hmodest htoken (hserves.wants hsize).1
    exact ⟨q.lastSize, hreckoned.lastSize_granted htoken, farApart_of_shouldReopen hlast hreopen⟩
  case reopens =>
    rintro rfl hopen token htoken hnext hfar
    have hwants : Wants src q q.bestSize :=
      wants_bestSize hopen htoken hnext (shouldReopen_of_farApart hfar)
    obtain ⟨hnone, -⟩ | ⟨size, hsize, hasked⟩ := hserves.asks rfl
    · exact absurd hwants (hnone _)
    · rw [hasked, (hsize.of_token htoken).2.2]

/-- Every read gives a zero. Opens are refused at the start, and after five events. -/
def reluctantZeros : Behaviour PageRequest Nat where
  opens log _ _ := if log.length = 0 ∨ log.length = 5 then .error .timeout else .ok ()
  reads _ _ := .ok (some 0)

/-- The first open is refused, and so is that of a page of double the size. -/
theorem run_sized_reluctantZeros :
    let src := reluctantZeros.pageSource Prod.mk (fun _ => true) (fun _ => [])
    let p : Pager (Watched PageRequest Nat) := { firstSize := 2, max := 8, lastSize := 2 }
    of? 2 8 = .ok p ∧ ∃ replies q log reply q' events,
      (run src p [.next, .next, .mark 1, .next]).run [] = ((replies, q), log) ∧
      (call src q .next).run log = ((reply, q'), log ++ events) ∧
      Sized src 2 8 [.next, .next, .mark 1, .next] replies q log .next reply q' events := by
  intro src p
  have hp : of? 2 8 = .ok p := rfl
  exact ⟨hp, run_sized reluctantZeros (fun _ => true) (fun _ => []) hp
    [.next, .next, .mark 1, .next] .next⟩

end Runs

end Pager

end QuorumStore
