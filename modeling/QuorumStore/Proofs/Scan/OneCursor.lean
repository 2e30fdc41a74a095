import QuorumStore.Proofs.Scan.Turns

/-!
# A pager has one cursor open at most

A pager closes the cursor it holds before it opens another, and gives up the cursor in which it has found
the end of its source. Opens may be refused, reads may fail, and pages, reports and closings are asked for
in any order.

* `Pager.Covers`: no cursor is open but the one that a pager holds.
* `Pager.Attended`: that is so at every moment of a call.
* `Pager.Over`: what a pager is left with at the end of its source, or when it is closed.
* `Pager.call_keeps`, `Pager.run_keeps`: one call, and any number of them.
* `Pager.run_owned`: **the open cursor is the one that the pager holds**, and there is none after the end.
-/

namespace QuorumStore

open CursorLog

namespace Pager

open Watching

variable {ι α : Type} (b : Behaviour ι α) (request : UInt64 → Option Bytes → ι)
  (hasNext : Bytes → Bool) (tokenOf : List α → Bytes)
  {src : PageSource (Watching ι α) (Watched ι α) α} {p q : Pager (Watched ι α)}
  {log log' events : CursorLog ι α} {id other : CursorId} {c : Call}

/-- No cursor is open but the one that the pager holds. -/
def Covers (p : Pager (Watched ι α)) (log : CursorLog ι α) : Prop := ∀ id, log.Holds id → id ∈ p.ids

theorem eq_of_mem_ids (hid : id ∈ p.ids) (hother : other ∈ p.ids) : id = other := by
  unfold ids at hid hother
  cases hcurrent : p.current with
  | none =>
    rw [hcurrent] at hid
    cases hid
  | some c =>
    rw [hcurrent] at hid hother
    exact (List.mem_singleton.1 hid).trans (List.mem_singleton.1 hother).symm

theorem Covers.unique (h : p.Covers log) (hid : log.Holds id) (hother : log.Holds other) :
    id = other :=
  eq_of_mem_ids (h id hid) (h other hother)

/-- At no moment of a call is a cursor open but the one that the pager holds. When a page is asked for
this is the one it held before, until it has seen to its cursor, and from then on the one it has then. -/
def Attended (src : PageSource (Watching ι α) (Watched ι α) α) (p : Pager (Watched ι α))
    (log events : CursorLog ι α) : Call → Prop
  | .next => ∃ result q early late,
    (refresh src p).run log = ((result, q), log ++ early) ∧ events = early ++ late ∧
      (∀ moment rest, early = moment ++ rest → rest ≠ [] → p.Covers (log ++ moment)) ∧
      ∀ moment, moment <+: late → q.Covers (log ++ early ++ moment)
  | _ => ∀ moment, moment <+: events → p.Covers (log ++ moment)

/-- A moment comes before the end of what is done first, or in what is done then. -/
theorem moment_cases {moment early late : CursorLog ι α} (h : moment <+: early ++ late) :
    (∃ rest, rest ≠ [] ∧ early = moment ++ rest) ∨ ∃ now, now <+: late ∧ moment = early ++ now := by
  rcases List.prefix_or_prefix_of_prefix h (List.prefix_append early late) with
    ⟨rest, hrest⟩ | ⟨now, rfl⟩
  · by_cases hwhole : rest = []
    · rw [hwhole, List.append_nil] at hrest
      exact Or.inr ⟨[], List.nil_prefix, by rw [List.append_nil, hrest]⟩
    · exact Or.inl ⟨rest, hwhole, hrest.symm⟩
  · exact Or.inr ⟨now, (List.prefix_append_right_inj early).1 h, rfl⟩

/-- A log in which a call leaves one cursor open at a time. -/
theorem Attended.oneAtATime (h : Attended src p log events c) (hlog : log.OneAtATime) :
    (log ++ events).OneAtATime := by
  intro moment hmoment id other hid hother
  rcases moment_cases hmoment with ⟨rest, -, rfl⟩ | ⟨now, hnow, rfl⟩
  · exact hlog moment (List.prefix_append moment rest) id other hid hother
  cases c with
  | mark live => exact (h now hnow).unique hid hother
  | close => exact (h now hnow).unique hid hother
  | next =>
    obtain ⟨result, q, early, late, -, rfl, hearly, hlate⟩ := h
    rcases moment_cases hnow with ⟨rest, hrest, hsplit⟩ | ⟨now', hnow', rfl⟩
    · exact (hearly now rest hsplit hrest).unique hid hother
    · rw [← List.append_assoc] at hid hother
      exact (hlate now' hnow').unique hid hother

/-- As long as nothing is opened the pager that held the open cursor before holds it. -/
theorem covers_of_quiet (htended : Tended log p.ids) (hquiet : events.Quiet) :
    p.Covers (log ++ events) := fun id hid => (htended.holds_iff id).1 (hid.of_append hquiet)

theorem quiet_closing (p : Pager (Watched ι α)) : p.closing.Quiet := by
  intro x ids hmem
  obtain ⟨id, -, heq⟩ := List.mem_map.1 hmem
  cases heq

theorem quiet_itemsRead (id : CursorId) (items : List α) :
    (itemsRead id items : CursorLog ι α).Quiet := by
  intro x ids hmem
  obtain ⟨a, -, heq⟩ := List.mem_map.1 hmem
  cases heq

/-- What a pager opens it opens last of all, before it reads. -/
theorem Refreshed.quiet_before {b : Behaviour ι α} {request : UInt64 → Option Bytes → ι}
    {r : Except Failure Unit × Pager (Watched ι α)} (h : Refreshed b request src p log r log') :
    ∃ early, log' = log ++ early ∧
      ∀ moment rest, early = moment ++ rest → rest ≠ [] → moment.Quiet := by
  have hopening : ∀ (x : ι) (given : List CursorId) (moment rest : CursorLog ι α),
      p.closing ++ [.opened x given] = moment ++ rest → rest ≠ [] → moment.Quiet := by
    intro x given moment rest hsplit hrest
    obtain rfl | ⟨rest, last, rfl⟩ := List.eq_nil_or_concat rest
    · exact absurd rfl hrest
    · rw [List.concat_eq_append, ← List.append_assoc] at hsplit
      have hclosing : Quiet (moment ++ rest) := (List.append_inj' hsplit rfl).1 ▸ quiet_closing p
      exact hclosing.of_append
  cases h with
  | kept hwants hends =>
    refine ⟨[], (List.append_nil log).symm, fun moment rest hsplit hrest => ?_⟩
    exact absurd (List.append_eq_nil_iff.1 hsplit.symm).2 hrest
  | ended hends =>
    refine ⟨_, rfl, fun moment rest hsplit _ => ?_⟩
    have hclosing : Quiet (moment ++ rest) := hsplit ▸ quiet_closing p
    exact hclosing.of_append
  | opened size id hwants hid => exact ⟨_, List.append_assoc _ _ _, hopening _ _⟩
  | refused size e hwants => exact ⟨_, List.append_assoc _ _ _, hopening _ _⟩

/-- Once a pager has seen to its cursor it opens nothing. -/
theorem Drawn.quiet {result : Except Failure Unit} {r : Except Failure (List α) × Pager (Watched ι α)}
    (h : Drawn src q result r events) : events.Quiet := by
  have hread : ∀ (id : CursorId) (items : List α) (more : CursorLog ι α), more.Quiet →
      (itemsRead id items ++ more).Quiet := by
    intro id items more hmore x ids hmem
    rcases List.mem_append.1 hmem with hitem | hmem
    · exact quiet_itemsRead id items x ids hitem
    · exact hmore x ids hmem
  cases h with
  | refused e => exact fun x ids hmem => by cases hmem
  | blank hnone => exact fun x ids hmem => by cases hmem
  | full c hcurrent page hlength => exact quiet_itemsRead c.id page
  | ended c hcurrent page hlength =>
    rw [List.append_assoc]
    exact hread _ _ _ fun x ids hmem => by simp at hmem
  | failed c hcurrent items e hlength => exact hread _ _ _ fun x ids hmem => by simp at hmem

/-- A pager whose pages have a size. -/
structure Sound (p : Pager (Watched ι α)) : Prop where
  first : p.firstSize ≠ 0
  largest : p.max ≠ 0
  last : p.lastSize ≠ 0
  ended : p.exhausted = true → p.current = none

theorem Refreshed.sound {b : Behaviour ι α} {request : UInt64 → Option Bytes → ι}
    {result : Except Failure Unit} (h : Refreshed b request src p log (result, q) log')
    (hp : p.Sound) : q.Sound := by
  cases h with
  | kept hwants hends => exact hp
  | ended hends => exact ⟨hp.first, hp.largest, hp.last, fun _ => rfl⟩
  | refused size e hwants => exact ⟨hp.first, hp.largest, hp.last, fun _ => rfl⟩
  | opened size id hwants hid =>
    refine ⟨hp.first, hp.largest, ?_, fun hended => absurd (hwants.1.symm.trans hended) (by decide)⟩
    cases htoken : p.lastToken with
    | none => exact (hwants.of_none htoken).2 ▸ hp.first
    | some token => exact (hwants.of_token htoken).2.2 ▸ bestSize_ne_zero hp.first hp.largest

theorem Drawn.sound {result : Except Failure Unit} {reply : Except Failure (List α)}
    {q' : Pager (Watched ι α)} (h : Drawn src q result (reply, q') events) (hq : q.Sound) :
    q'.Sound := by
  cases h with
  | refused e => exact hq
  | blank hnone => exact hq
  | full c hcurrent page hlength => exact ⟨hq.first, hq.largest, hq.last, hq.ended⟩
  | ended c hcurrent page hlength => exact ⟨hq.first, hq.largest, hq.last, fun _ => rfl⟩
  | failed c hcurrent items e hlength => exact hq

theorem Refreshed.exhausted {b : Behaviour ι α} {request : UInt64 → Option Bytes → ι}
    {result : Except Failure Unit} (h : Refreshed b request src p log (result, q) log')
    (hended : p.exhausted = true) : q.exhausted = true := by
  cases h with
  | ended hends => rfl
  | kept hwants hends => exact hended
  | opened size id hwants hid => exact hended
  | refused size e hwants => exact hended

theorem Drawn.exhausted {result : Except Failure Unit} {reply : Except Failure (List α)}
    {q' : Pager (Watched ι α)} (h : Drawn src q result (reply, q') events)
    (hended : q.exhausted = true) : q'.exhausted = true := by
  cases h with
  | ended c hcurrent page hlength => rfl
  | refused e => exact hended
  | blank hnone => exact hended
  | full c hcurrent page hlength => exact hended
  | failed c hcurrent items e hlength => exact hended

/-- A pager that has no cursor to read from has come to the end, or it is stranded. -/
theorem Refreshed.over {b : Behaviour ι α} {request : UInt64 → Option Bytes → ι}
    (h : Refreshed b request src p log (.ok (), q) log') (hnone : q.current = none) :
    q.exhausted = true ∨ q.Stranded src := by
  cases h with
  | ended hends => exact Or.inl rfl
  | opened size id hwants hid => cases hnone
  | kept hwants hends =>
    by_cases hended : p.exhausted = true
    · exact Or.inl hended
    have hopen : p.exhausted = false := eq_false_of_ne_true hended
    right
    cases htoken : p.lastToken with
    | none => exact absurd (wants_firstSize hopen htoken hnone) (hwants _)
    | some token =>
      have hnext : src.hasNext token = true := by
        by_contra hlast
        exact hends ⟨hopen, token, htoken, eq_false_of_ne_true hlast⟩
      refine ⟨hopen, hnone, ?_, token, htoken, hnext⟩
      by_contra hreopen
      exact hwants _ (wants_bestSize hopen htoken hnext (eq_true_of_ne_false hreopen))

/-- What a pager is left with when it is closed, or has returned fewer rows than were asked for: it has no
cursor. -/
structure Over (src : PageSource (Watching ι α) (Watched ι α) α) (p : Pager (Watched ι α)) (c : Call)
    (reply : Option (Except Failure (List α))) (q : Pager (Watched ι α)) : Prop where
  closed : p.exhausted = true ∨ c = .close → q.exhausted = true
  short : ∀ page, reply = some (.ok page) → page = [] ∨ page.length < q.lastSize.toNat →
    q.current = none ∧ (q.exhausted = true ∨ q.Stranded src)

theorem Drawn.short {b : Behaviour ι α} {request : UInt64 → Option Bytes → ι}
    {result : Except Failure Unit} {page : List α} {q' : Pager (Watched ι α)}
    (h : Drawn src q result (.ok page, q') events)
    (hrefresh : Refreshed b request src p log (result, q) log') (hq : q.Sound)
    (hshort : page = [] ∨ page.length < q'.lastSize.toNat) :
    q'.current = none ∧ (q'.exhausted = true ∨ q'.Stranded src) := by
  cases h with
  | blank hnone => exact ⟨hnone, hrefresh.over hnone⟩
  | ended c hcurrent page hlength => exact ⟨rfl, Or.inl rfl⟩
  | full c hcurrent page hlength =>
    -- a page that is full has the rows that were asked for, and these are not none
    have hsize : 0 < q.lastSize.toNat := toNat_pos hq.last
    have hshort : page = [] ∨ page.length < q.lastSize.toNat := hshort
    rcases hshort with rfl | hshort
    · rw [← hlength] at hsize
      exact absurd hsize (Nat.lt_irrefl 0)
    · exact absurd hlength (Nat.ne_of_lt hshort)

/-- What is known of a pager and of its cursors between two calls. -/
structure Keeps (p : Pager (Watched ι α)) (log : CursorLog ι α) : Prop where
  sound : p.Sound
  tended : Tended log p.ids
  alone : log.OneAtATime

/-- **What one call does.** -/
theorem call_keeps (h : Keeps p log) (c : Call) : ∃ reply q events,
    (call (b.pageSource request hasNext tokenOf) p c).run log = ((reply, q), log ++ events) ∧
      Keeps q (log ++ events) ∧ Attended (b.pageSource request hasNext tokenOf) p log events c ∧
      Over (b.pageSource request hasNext tokenOf) p c reply q := by
  cases c with
  | mark live =>
    have hattended : Attended (b.pageSource request hasNext tokenOf) p log [] (.mark live) := by
      intro moment hmoment
      rw [List.prefix_nil.1 hmoment]
      exact covers_of_quiet h.tended fun x ids hmem => by cases hmem
    have hsame : log ++ ([] : CursorLog ι α) = log := List.append_nil log
    refine ⟨none, p.mark live, [], hsame.symm ▸ rfl, ?_, hattended, ⟨?_, fun _ h => by cases h⟩⟩
    · exact ⟨⟨h.sound.first, h.sound.largest, h.sound.last, h.sound.ended⟩, hsame.symm ▸ h.tended,
        hsame.symm ▸ h.alone⟩
    · rintro (hended | hclose)
      · exact hended
      · cases hclose
  | close =>
    have hattended : Attended (b.pageSource request hasNext tokenOf) p log p.closing .close := by
      rintro moment ⟨rest, hrest⟩
      have hclosing : Quiet (moment ++ rest) := hrest ▸ quiet_closing p
      exact covers_of_quiet h.tended hclosing.of_append
    refine ⟨none, { p with exhausted := true, current := none }, p.closing, ?_, ?_, hattended,
      ⟨fun _ => rfl, fun _ h => by cases h⟩⟩
    · unfold call
      rw [run_bind, run_close]
      rfl
    · exact ⟨⟨h.sound.first, h.sound.largest, h.sound.last, fun _ => rfl⟩,
        tended_closing h.tended, hattended.oneAtATime h.alone⟩
  | next =>
    obtain ⟨result, q, log', ⟨reply, q'⟩, late, hrefresh, hrefreshed, hrun, hdrawn⟩ :=
      nextPage_drawn b request hasNext tokenOf p log
    obtain ⟨early, rfl, hquiet⟩ := hrefreshed.quiet_before
    have hsound := hrefreshed.sound h.sound
    have hattended : Attended (b.pageSource request hasNext tokenOf) p log (early ++ late) .next := by
      refine ⟨result, q, early, late, hrefresh, rfl, fun moment rest hsplit hrest => ?_, ?_⟩
      · exact covers_of_quiet h.tended (hquiet moment rest hsplit hrest)
      · rintro moment ⟨rest, hrest⟩
        have hlate : Quiet (moment ++ rest) := hrest ▸ hdrawn.quiet
        exact covers_of_quiet (hrefreshed.tended h.tended) hlate.of_append
    have htended : Tended (log ++ (early ++ late)) q'.ids := by
      rw [← List.append_assoc]
      exact hdrawn.tended (hrefreshed.tended h.tended)
    refine ⟨some reply, q', early ++ late, ?_, ⟨hdrawn.sound hsound, htended,
      hattended.oneAtATime h.alone⟩, hattended, ⟨?_, ?_⟩⟩
    · unfold call
      rw [run_bind, hrun, List.append_assoc]
      rfl
    · rintro (hended | hclose)
      · exact hdrawn.exhausted (hrefreshed.exhausted hended)
      · cases hclose
    · intro page hpage hshort
      cases hpage
      exact hdrawn.short hrefreshed hsound hshort

/-- **What any number of calls do.** -/
theorem run_keeps {first largest : UInt64} (hp : of? first largest = .ok p) (calls : List Call) :
    ∃ replies q log,
      (run (b.pageSource request hasNext tokenOf) p calls).run [] = ((replies, q), log) ∧
      Keeps q log ∧ (.close ∈ calls → q.exhausted = true) := by
  induction calls using List.reverseRecOn with
  | nil =>
    obtain ⟨hfirst, rfl⟩ := eq_of_of? hp
    refine ⟨[], _, [], rfl, ⟨⟨hfirst, ?_, hfirst, fun _ => rfl⟩, .nil, ?_⟩, by simp⟩
    · dsimp only
      split
      · decide
      · assumption
    · intro moment hmoment id other hid
      rw [List.prefix_nil.1 hmoment] at hid
      exact absurd hid.1 not_gave_nil
  | append_singleton calls c ih =>
    obtain ⟨replies, q, log, hrun, hkeeps, hclosed⟩ := ih
    obtain ⟨reply, q', events, hcall, hkeeps', -, hover⟩ :=
      call_keeps b request hasNext tokenOf hkeeps c
    refine ⟨_, q', _, run_then_call hrun hcall, hkeeps', fun hmem => ?_⟩
    rcases List.mem_append.1 hmem with hbefore | hnow
    · exact hover.closed (Or.inl (hclosed hbefore))
    · exact hover.closed (Or.inr (List.mem_singleton.1 hnow).symm)

/-- What can be said of the cursors of a pager during a call that comes after others. -/
structure Owned (src : PageSource (Watching ι α) (Watched ι α) α) (calls : List Call)
    (p : Pager (Watched ι α)) (log : CursorLog ι α) (c : Call)
    (reply : Option (Except Failure (List α))) (q : Pager (Watched ι α)) (events : CursorLog ι α) :
    Prop where
  /-- A cursor is opened when each one before it is closed. None is read or closed once it is closed. -/
  orderly : (log ++ events).Orderly
  atMostOnce : ∀ id, (log ++ events).closings id ≤ 1
  alone : (log ++ events).OneAtATime
  /-- The open cursor is the one that the pager holds, before the call, during it and after it. -/
  before : ∀ id, log.Holds id ↔ id ∈ p.ids
  attended : Attended src p log events c
  after : ∀ id, (log ++ events).Holds id ↔ id ∈ q.ids
  closed : .close ∈ calls ++ [c] → q.exhausted = true
  /-- A page that is short is the end, or the pager is stranded. -/
  short : ∀ page, reply = some (.ok page) → page = [] ∨ page.length < q.lastSize.toNat →
    q.exhausted = true ∨ q.Stranded src
  /-- Either way, every cursor was closed. -/
  released : q.exhausted = true ∨ q.Stranded src → ∀ id, (log ++ events).Gave id →
    (log ++ events).closings id = 1
  /-- From the end on nothing is opened, read or closed. -/
  final : q.exhausted = true → ∀ later, ∃ s, (run src q later).run (log ++ events) =
    ((List.replicate (later.countP Call.isNext) (.ok []), s), log ++ events)

/-- **The open cursor is the one that the pager holds**, whatever is refused or fails and whatever is asked
for, and every cursor is closed once at the end. -/
theorem run_owned {first largest : UInt64} (hp : of? first largest = .ok p) (calls : List Call)
    (c : Call) :
    let src := b.pageSource request hasNext tokenOf
    ∃ replies q log reply q' events, (run src p calls).run [] = ((replies, q), log) ∧
      (call src q c).run log = ((reply, q'), log ++ events) ∧
      Owned src calls q log c reply q' events := by
  intro src
  obtain ⟨replies, q, log, hrun, hkeeps, hclosed⟩ := run_keeps b request hasNext tokenOf hp calls
  obtain ⟨reply, q', events, hcall, hkeeps', hattended, hover⟩ :=
    call_keeps b request hasNext tokenOf hkeeps c
  refine ⟨replies, q, log, reply, q', events, hrun, hcall, hkeeps'.tended.orderly,
    hkeeps'.tended.orderly.closings_le_one, hkeeps'.alone, hkeeps.tended.holds_iff, hattended,
    hkeeps'.tended.holds_iff, ?closed, fun page hpage hshort => (hover.short page hpage hshort).2,
    ?released, ?final⟩
  case closed =>
    intro hmem
    rcases List.mem_append.1 hmem with hbefore | hnow
    · exact hover.closed (Or.inl (hclosed hbefore))
    · exact hover.closed (Or.inr (List.mem_singleton.1 hnow).symm)
  case released =>
    intro hend id hgave
    have hnone : q'.current = none := hend.elim hkeeps'.sound.ended (·.lost)
    have htended := hkeeps'.tended
    unfold ids at htended
    rw [hnone] at htended
    exact Tended.closings_eq_one htended hgave
  case final =>
    intro hended later
    refine ⟨later.foldl Call.report q', ?_⟩
    rw [run_exhausted src hended (hkeeps'.sound.ended hended) later]
    rfl

/-- Reads give zeros at first, and fail after five events. The second open is refused. -/
def failingZeros : Behaviour (UInt64 × Option Bytes) Nat where
  opens log _ _ := if log.length = 4 then .error .timeout else .ok ()
  reads log _ := if log.length < 5 then .ok (some 0) else .error .timeout

/-- After an open that is refused a cursor is opened whose first read fails. -/
theorem run_owned_failingZeros :
    let src := failingZeros.pageSource Prod.mk (fun _ => true) (fun _ => [])
    let p : Pager (Watched (UInt64 × Option Bytes) Nat) := { firstSize := 2, max := 8, lastSize := 2 }
    of? 2 8 = .ok p ∧ ∃ replies q log reply q' events,
      (run src p [.next, .mark 0, .next]).run [] = ((replies, q), log) ∧
      (call src q .next).run log = ((reply, q'), log ++ events) ∧
      Owned src [.next, .mark 0, .next] q log .next reply q' events := by
  intro src p
  have hp : of? 2 8 = .ok p := rfl
  exact ⟨hp, run_owned failingZeros Prod.mk (fun _ => true) (fun _ => []) hp
    [.next, .mark 0, .next] .next⟩

end Pager

end QuorumStore
