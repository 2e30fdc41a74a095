import Mathlib.Data.List.Induction
import Mathlib.Data.List.Nodup
import QuorumStore.Cursor

/-!
# Cursors under watch

A log of what becomes of the cursors of a source: which opens gave which cursors, what every read found
and which cursors were closed. How opens and reads are answered may depend on all that happened before, so
what holds of every behaviour holds of every source.

* `CursorLog.Holds`, `CursorLog.Spent`, `CursorLog.closings`: what a log says of a cursor.
* `CursorLog.OneAtATime`: no two cursors are open at the same moment.
* `CursorLog.Orderly`: cursors are opened while no other is open, and only open ones are read or closed.
* `CursorLog.Prudent`: no cursor is read once it has ended or failed.
* `CursorLog.Orderly.closings_le_one`: **no cursor is closed twice.**
* `CursorLog.Tended`, `CursorLog.Careful`: logs after which exactly some cursors are open.
* `Behaviour`, `Watched`: how opens and reads are answered, and cursors that behave so.
-/

namespace QuorumStore

/-- Something holds of every member of a list and of those before it. -/
def EachAfter {β : Type} (P : List β → β → Prop) (l : List β) : Prop :=
  ∀ before e after, l = before ++ e :: after → P before e

theorem eachAfter_nil {β : Type} (P : List β → β → Prop) : EachAfter P [] := by
  intro before e after h
  simp at h

theorem eachAfter_snoc {β : Type} {P : List β → β → Prop} {l : List β} {x : β} :
    EachAfter P (l ++ [x]) ↔ EachAfter P l ∧ P l x := by
  constructor
  · intro h
    refine ⟨fun before e after hl => h before e (after ++ [x]) ?_, h l x [] rfl⟩
    rw [hl, List.append_assoc, List.cons_append]
  · rintro ⟨hl, hx⟩ before e after h
    rcases List.eq_nil_or_concat after with rfl | ⟨after, last, rfl⟩
    · obtain ⟨rfl, hlast⟩ := List.append_inj' h rfl
      cases hlast
      exact hx
    · rw [List.concat_eq_append, ← List.cons_append, ← List.append_assoc] at h
      exact hl before e after (List.append_inj' h rfl).1

/-- A cursor is known by the place in the log of the open that gave it, and by its own place among
the cursors of that open. -/
abbrev CursorId := Nat × Nat

/-- What becomes of the cursors over items `α` of a source that is asked to open an `ι`. -/
inductive CursorEvent (ι α : Type) where
  /-- It was asked to open `x` and gave these cursors. -/
  | opened (x : ι) (ids : List CursorId)
  /-- A cursor was read, with this result. -/
  | read (id : CursorId) (result : Except Failure (Option α))
  /-- A cursor was closed. -/
  | closed (id : CursorId)

/-- All that has become of the cursors of a source, oldest first. -/
abbrev CursorLog (ι α : Type) := List (CursorEvent ι α)

namespace CursorLog

variable {ι α : Type} {log : CursorLog ι α} {id : CursorId} {ids : List CursorId}

/-- The cursor was given by an open. -/
def Gave (log : CursorLog ι α) (id : CursorId) : Prop := ∃ x ids, .opened x ids ∈ log ∧ id ∈ ids

/-- The cursor is open: it was given, and not closed since. -/
def Holds (log : CursorLog ι α) (id : CursorId) : Prop := log.Gave id ∧ .closed id ∉ log

/-- A read of the cursor found its end, or failed. -/
def Spent (log : CursorLog ι α) (id : CursorId) : Prop :=
  ∃ result, .read id result ∈ log ∧ ∀ a, result ≠ .ok (some a)

/-- How often the cursor was closed. -/
def closings (log : CursorLog ι α) (id : CursorId) : Nat :=
  log.countP fun
    | .closed other => decide (other = id)
    | _ => false

/-- What may come after a log. New cursors are opened while none is open, and only a cursor that is
open is read or closed. -/
def Allows (log : CursorLog ι α) : CursorEvent ι α → Prop
  | .opened _ ids => ids.Nodup ∧ (∀ id ∈ ids, ¬log.Gave id) ∧ ∀ id, ¬log.Holds id
  | .read id _ => log.Holds id
  | .closed id => log.Holds id

/-- Whatever happened was allowed after what happened before. -/
def Orderly (log : CursorLog ι α) : Prop := EachAfter Allows log

/-- No cursor was read once it had ended or failed. -/
def Prudent (log : CursorLog ι α) : Prop :=
  EachAfter (fun before e => ∀ id result, e = .read id result → ¬Spent before id) log

theorem not_gave_nil : ¬Gave ([] : CursorLog ι α) id := by
  rintro ⟨x, ids, hmem, -⟩
  cases hmem

section Snoc

theorem gave_opened {x : ι} : Gave (log ++ [.opened x ids]) id ↔ log.Gave id ∨ id ∈ ids := by
  simp only [Gave, List.mem_append, List.mem_singleton]
  constructor
  · rintro ⟨x', ids', hmem | heq, hid⟩
    · exact Or.inl ⟨x', ids', hmem, hid⟩
    · cases heq
      exact Or.inr hid
  · rintro (⟨x', ids', hmem, hid⟩ | hid)
    · exact ⟨x', ids', Or.inl hmem, hid⟩
    · exact ⟨x, ids, Or.inr rfl, hid⟩

theorem gave_read {other : CursorId} {result : Except Failure (Option α)} :
    Gave (log ++ [.read other result]) id ↔ log.Gave id := by
  simp [Gave]

theorem gave_closed {other : CursorId} : Gave (log ++ [.closed other]) id ↔ log.Gave id := by
  simp [Gave]

theorem holds_read {other : CursorId} {result : Except Failure (Option α)} :
    Holds (log ++ [.read other result]) id ↔ log.Holds id := by
  simp [Holds, gave_read]

theorem holds_closed {other : CursorId} :
    Holds (log ++ [.closed other]) id ↔ log.Holds id ∧ id ≠ other := by
  simp [Holds, gave_closed, and_assoc]

theorem spent_opened {x : ι} : Spent (log ++ [.opened x ids]) id ↔ log.Spent id := by
  simp [Spent]

theorem spent_closed {other : CursorId} : Spent (log ++ [.closed other]) id ↔ log.Spent id := by
  simp [Spent]

theorem spent_read {other : CursorId} {result : Except Failure (Option α)} :
    Spent (log ++ [.read other result]) id ↔
      log.Spent id ∨ id = other ∧ ∀ a, result ≠ .ok (some a) := by
  simp only [Spent, List.mem_append, List.mem_singleton, CursorEvent.read.injEq]
  constructor
  · rintro ⟨result', hmem | ⟨rfl, rfl⟩, hend⟩
    · exact Or.inl ⟨result', hmem, hend⟩
    · exact Or.inr ⟨rfl, hend⟩
  · rintro (⟨result', hmem, hend⟩ | ⟨rfl, hend⟩)
    · exact ⟨result', Or.inl hmem, hend⟩
    · exact ⟨result, Or.inr ⟨rfl, rfl⟩, hend⟩

end Snoc

/-- Nothing is opened. -/
def Quiet (events : CursorLog ι α) : Prop := ∀ x ids, .opened x ids ∉ events

theorem Quiet.of_append {events more : CursorLog ι α} (h : Quiet (events ++ more)) : Quiet events :=
  fun x ids hmem => h x ids (List.mem_append_left _ hmem)

/-- While nothing is opened, only a cursor that was open before is open. -/
theorem Holds.of_append {events : CursorLog ι α} (h : Holds (log ++ events) id)
    (hquiet : events.Quiet) : log.Holds id := by
  obtain ⟨⟨x, ids, hmem, hid⟩, hopen⟩ := h
  refine ⟨⟨x, ids, ?_, hid⟩, fun hclosed => hopen (List.mem_append_left _ hclosed)⟩
  exact (List.mem_append.1 hmem).resolve_right (hquiet x ids)

/-- At every moment at most one cursor is open. -/
def OneAtATime (log : CursorLog ι α) : Prop :=
  ∀ moment : CursorLog ι α, moment <+: log → ∀ id other, moment.Holds id → moment.Holds other → id = other

/-- In an orderly log only cursors that were given are read or closed. -/
theorem Orderly.gave (h : Orderly log) {e : CursorEvent ι α} (he : e ∈ log)
    (huse : ∀ before, Allows before e → Holds before id) : log.Gave id := by
  obtain ⟨before, after, rfl⟩ := List.append_of_mem he
  obtain ⟨⟨x, ids, hmem, hid⟩, -⟩ := huse before (h before e after rfl)
  exact ⟨x, ids, List.mem_append_left _ hmem, hid⟩

theorem Orderly.gave_of_closed (h : Orderly log) (hclosed : .closed id ∈ log) : log.Gave id :=
  h.gave hclosed fun _ hallowed => hallowed

theorem Orderly.gave_of_spent (h : Orderly log) (hspent : log.Spent id) : log.Gave id := by
  obtain ⟨result, hread, -⟩ := hspent
  exact h.gave hread fun _ hallowed => hallowed

theorem closings_eq_zero (h : CursorEvent.closed id ∉ log) : closings log id = 0 := by
  unfold closings
  rw [List.countP_eq_zero]
  intro e he hcloses
  cases e with
  | opened x ids => cases hcloses
  | read other result => cases hcloses
  | closed other =>
    rw [of_decide_eq_true hcloses] at he
    exact h he

/-- **No cursor is closed twice.** -/
theorem Orderly.closings_le_one (h : Orderly log) (id : CursorId) : log.closings id ≤ 1 := by
  induction log using List.reverseRecOn with
  | nil => exact Nat.zero_le 1
  | append_singleton log e ih =>
    obtain ⟨hlog, hallowed⟩ := eachAfter_snoc.1 h
    have hbefore := ih hlog
    have happend : closings (log ++ [e]) id = closings log id + closings [e] id :=
      List.countP_append
    rw [happend]
    cases e with
    | opened x ids => simpa [closings] using hbefore
    | read other result => simpa [closings] using hbefore
    | closed other =>
      by_cases hother : other = id
      · subst hother
        rw [closings_eq_zero hallowed.2]
        simp [closings]
      · simpa [closings, hother] using hbefore

/-- A cursor that was given and is no longer open was closed once. -/
theorem Orderly.closings_eq_one (h : Orderly log) (hgave : log.Gave id) (hnot : ¬log.Holds id) :
    log.closings id = 1 := by
  have hclosed : .closed id ∈ log := by
    by_contra hopen
    exact hnot ⟨hgave, hopen⟩
  have hpos : 0 < log.closings id := List.countP_pos_iff.2 ⟨_, hclosed, by simp⟩
  have hle := h.closings_le_one id
  omega

/-- An orderly log after which exactly some cursors are open. -/
structure Tended (log : CursorLog ι α) (ids : List CursorId) : Prop where
  orderly : Orderly log
  nodup : ids.Nodup
  holds_iff : ∀ id, log.Holds id ↔ id ∈ ids
  dated : ∀ id, log.Gave id → id.1 < log.length

namespace Tended

variable {front back : List CursorId}

theorem nil : Tended ([] : CursorLog ι α) [] :=
  ⟨eachAfter_nil _, List.nodup_nil, fun _ => by simp [Holds, not_gave_nil],
    fun _ hgave => absurd hgave not_gave_nil⟩

/-- What is opened now has not been given before. -/
theorem not_gave (h : Tended log ids) (hnow : id.1 = log.length) : ¬log.Gave id := fun hgave =>
  absurd (h.dated id hgave) (by omega)

theorem opened (h : Tended log []) (x : ι) (hnodup : ids.Nodup)
    (hnow : ∀ id ∈ ids, id.1 = log.length) : Tended (log ++ [.opened x ids]) ids := by
  have hnone : ∀ id, ¬log.Holds id := fun id hid => by simpa using (h.holds_iff id).1 hid
  have hnew : ∀ id ∈ ids, ¬log.Gave id := fun id hid => h.not_gave (hnow id hid)
  refine ⟨eachAfter_snoc.2 ⟨h.orderly, hnodup, hnew, hnone⟩, hnodup, fun id => ?_, fun id hgave => ?_⟩
  rotate_left
  · rw [List.length_append]
    rcases gave_opened.1 hgave with hgave | hid
    · exact Nat.lt_add_right 1 (h.dated id hgave)
    · rw [hnow id hid]
      exact Nat.lt_succ_self _
  constructor
  · rintro ⟨hgave, hopen⟩
    have hopen : .closed id ∉ log := fun hmem => hopen (List.mem_append_left _ hmem)
    exact (gave_opened.1 hgave).resolve_left fun hgave => hnone id ⟨hgave, hopen⟩
  · intro hid
    refine ⟨gave_opened.2 (Or.inr hid), fun hclosed => ?_⟩
    have hclosed : .closed id ∈ log := by simpa using hclosed
    exact hnew id hid (h.orderly.gave_of_closed hclosed)

theorem read (h : Tended log ids) (hid : id ∈ ids) (result : Except Failure (Option α)) :
    Tended (log ++ [.read id result]) ids := by
  refine ⟨eachAfter_snoc.2 ⟨h.orderly, (h.holds_iff id).2 hid⟩, h.nodup, fun other => ?_,
    fun other hgave => ?_⟩
  · rw [holds_read, h.holds_iff]
  · rw [List.length_append]
    exact Nat.lt_add_right 1 (h.dated other (gave_read.1 hgave))

theorem closed (h : Tended log (front ++ id :: back)) :
    Tended (log ++ [.closed id]) (front ++ back) := by
  have hid : log.Holds id := (h.holds_iff id).2 (by simp)
  obtain ⟨hnot, hnodup⟩ := List.nodup_middle.1 h.nodup |> List.nodup_cons.1
  refine ⟨eachAfter_snoc.2 ⟨h.orderly, hid⟩, hnodup, fun other => ?_, fun other hgave => ?_⟩
  rotate_left
  · rw [List.length_append]
    exact Nat.lt_add_right 1 (h.dated other (gave_closed.1 hgave))
  rw [holds_closed, h.holds_iff]
  simp only [List.mem_append, List.mem_cons]
  constructor
  · rintro ⟨hfront | rfl | hback, hne⟩
    · exact Or.inl hfront
    · exact absurd rfl hne
    · exact Or.inr hback
  · rintro hother
    refine ⟨hother.imp_right Or.inr, ?_⟩
    rintro rfl
    exact hnot (List.mem_append.2 hother)

/-- Where no cursor is open, each that was given was closed once. -/
theorem closings_eq_one (h : Tended log []) (hgave : log.Gave id) : log.closings id = 1 :=
  h.orderly.closings_eq_one hgave fun hopen => by simpa using (h.holds_iff id).1 hopen

end Tended

/-- A tended log that is prudent, and after which no open cursor has ended or failed. -/
structure Careful (log : CursorLog ι α) (ids : List CursorId) : Prop extends Tended log ids where
  prudent : Prudent log
  unspent : ∀ id ∈ ids, ¬log.Spent id

namespace Careful

variable {front back : List CursorId}

theorem nil : Careful ([] : CursorLog ι α) [] := ⟨.nil, eachAfter_nil _, by simp⟩

theorem opened (h : Careful log []) (x : ι) (hnodup : ids.Nodup)
    (hnow : ∀ id ∈ ids, id.1 = log.length) : Careful (log ++ [.opened x ids]) ids := by
  refine ⟨h.toTended.opened x hnodup hnow, eachAfter_snoc.2 ⟨h.prudent, ?_⟩, fun id hid => ?_⟩
  · intro id result heq
    cases heq
  · rw [spent_opened]
    exact fun hspent => h.not_gave (hnow id hid) (h.orderly.gave_of_spent hspent)

theorem read_item (h : Careful log ids) (hid : id ∈ ids) (a : α) :
    Careful (log ++ [.read id (.ok (some a))]) ids := by
  refine ⟨h.toTended.read hid _, eachAfter_snoc.2 ⟨h.prudent, ?_⟩, fun other hother => ?_⟩
  · intro other result heq
    cases heq
    exact h.unspent id hid
  · rw [spent_read]
    rintro (hspent | ⟨-, hend⟩)
    · exact h.unspent other hother hspent
    · exact hend a rfl

theorem closed (h : Careful log (front ++ id :: back)) :
    Careful (log ++ [.closed id]) (front ++ back) := by
  refine ⟨h.toTended.closed, eachAfter_snoc.2 ⟨h.prudent, ?_⟩, fun other hother => ?_⟩
  · intro other result heq
    cases heq
  · rw [spent_closed]
    refine h.unspent other ?_
    rcases List.mem_append.1 hother with hfront | hback
    · exact List.mem_append_left _ hfront
    · exact List.mem_append_right _ (List.mem_cons_of_mem _ hback)

/-- A cursor that has ended or failed is given up at once. -/
theorem read_closed (h : Careful log (front ++ id :: back)) (result : Except Failure (Option α)) :
    Careful (log ++ [.read id result] ++ [.closed id]) (front ++ back) := by
  have hid : id ∈ front ++ id :: back := by simp
  have hread := h.toTended.read hid result
  have hothers := List.nodup_cons.1 (List.nodup_middle.1 h.nodup)
  refine ⟨hread.closed, eachAfter_snoc.2 ⟨eachAfter_snoc.2 ⟨h.prudent, ?_⟩, ?_⟩, ?_⟩
  · intro other result' heq
    cases heq
    exact h.unspent id hid
  · intro other result' heq
    cases heq
  · intro other hother
    rw [spent_closed, spent_read]
    rintro (hspent | ⟨rfl, -⟩)
    · exact h.closed.unspent other hother (spent_closed.2 hspent)
    · exact hothers.1 hother

end Careful

end CursorLog

/-- How opens and reads are answered, given all that happened before. An open may be asked for
several cursors, each of which it gives or fails to give. -/
structure Behaviour (ι α : Type) where
  opens : CursorLog ι α → ι → Nat → Except Failure Unit
  reads : CursorLog ι α → CursorId → Except Failure (Option α)

/-- A computation that keeps the log of a source. -/
abbrev Watching (ι α : Type) := StateM (CursorLog ι α)

/-- A cursor of which every read and closing goes into the log. -/
structure Watched (ι α : Type) where
  behaviour : Behaviour ι α
  id : CursorId

instance {ι α : Type} : Cursor (Watching ι α) (Watched ι α) α where
  next c := do
    let log ← get
    let result := c.behaviour.reads log c.id
    set (log ++ [CursorEvent.read c.id result])
    return (result, c)
  close c := do
    modify fun log => log ++ [CursorEvent.closed c.id]
    return c

namespace Watching

variable {ι α β γ : Type}

theorem run_bind (x : Watching ι α β) (f : β → Watching ι α γ) (log : CursorLog ι α) :
    (x >>= f).run log = (f (x.run log).1).run (x.run log).2 := rfl

theorem run_next (c : Watched ι α) (log : CursorLog ι α) :
    (Cursor.next c : Watching ι α _).run log =
      ((c.behaviour.reads log c.id, c), log ++ [.read c.id (c.behaviour.reads log c.id)]) := rfl

theorem run_close (c : Watched ι α) (log : CursorLog ι α) :
    (Cursor.close c : Watching ι α _).run log = (c, log ++ [.closed c.id]) := rfl

end Watching

namespace Behaviour

variable {ι α : Type} (b : Behaviour ι α)

/-- Opens a single cursor. -/
def openOne (x : ι) : Watching ι α (Except Failure (Watched ι α)) := do
  let log ← get
  match b.opens log x 0 with
  | .ok () =>
    set (log ++ [CursorEvent.opened x [(log.length, 0)]])
    return .ok ⟨b, (log.length, 0)⟩
  | .error e =>
    set (log ++ [CursorEvent.opened x []])
    return .error e

/-- A single cursor is opened, or it is refused. -/
theorem run_openOne (x : ι) (log : CursorLog ι α) :
    (∃ id : CursorId, id.1 = log.length ∧
      (b.openOne x).run log = (.ok ⟨b, id⟩, log ++ [.opened x [id]])) ∨
    ∃ e, (b.openOne x).run log = (.error e, log ++ [.opened x []]) := by
  have hget : (get : Watching ι α (CursorLog ι α)).run log = (log, log) := rfl
  unfold openOne
  rw [Watching.run_bind, hget]
  dsimp only
  cases b.opens log x 0 with
  | ok _ => exact Or.inl ⟨(log.length, 0), rfl, rfl⟩
  | error e => exact Or.inr ⟨e, rfl⟩

end Behaviour

end QuorumStore
