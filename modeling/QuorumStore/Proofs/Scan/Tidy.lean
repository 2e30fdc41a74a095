import QuorumStore.Proofs.Cursor.Watched
import QuorumStore.Proofs.Scan.Merged

/-!
# Merged scans close what they open

The reader of a merged scan asks for rows and closes the scan in any order, and the cursors of the
replicas end or fail at any point. The scan keeps the cursors that go on, and closes each other one as
soon as it knows of it.

* `Behaviour.scanSource`: replicas whose cursors are watched.
* `MergedScan.smallest_careful`: cursors that have ended or failed are closed, and no others.
* `MergedScan.advance_careful`, `MergedScan.close_careful`: the open cursors are those of the scan.
* `MergedScan.call`, `MergedScan.run`: one call of a reader, and any number of them.
* `MergedScan.run_tidy`: **every cursor is closed once**, before the next sub-range is opened, and none is
  read after its end.
-/

namespace QuorumStore

open CursorLog

variable {τ : Type}

/-- What a merged scan asks for: cursors over a range on each of some replicas. -/
abbrev ScanRequest := RowRange × List ReplicaId

/-- The answers of some replicas that are asked at the same time. -/
def Behaviour.answers (b : Behaviour ScanRequest (Row τ)) (log : CursorLog ScanRequest (Row τ))
    (range : RowRange) (replicas : List ReplicaId) :
    List (ReplicaId × Except Failure (Watched ScanRequest (Row τ))) :=
  replicas.zipIdx.map fun (replica, i) =>
    (replica, (b.opens log (range, replicas) i).map fun _ => { behaviour := b, id := (log.length, i) })

/-- The cursors among some answers. -/
def givenIds (answers : List (ReplicaId × Except Failure (Watched ScanRequest (Row τ)))) :
    List CursorId :=
  answers.filterMap fun answer => answer.2.toOption.map Watched.id

/-- Replicas whose cursors are watched. -/
def Behaviour.scanSource (b : Behaviour ScanRequest (Row τ)) :
    ScanSource (Watching ScanRequest (Row τ)) (Watched ScanRequest (Row τ)) where
  openAll range replicas := do
    let log ← get
    let answers := b.answers log range replicas
    set (log ++ [CursorEvent.opened (range, replicas) (givenIds answers)])
    return answers
  dropped _ _ _ := pure ()

/-- What replicas give at one time are cursors of that time, each another one. -/
theorem Behaviour.givenIds_answers (b : Behaviour ScanRequest (Row τ))
    (log : CursorLog ScanRequest (Row τ)) (range : RowRange) (replicas : List ReplicaId) :
    (givenIds (b.answers log range replicas)).Nodup ∧
      ∀ id ∈ givenIds (b.answers log range replicas), id.1 = log.length := by
  have hplaces : replicas.zipIdx.Pairwise fun x y => x.2 ≠ y.2 := by
    rw [← List.pairwise_map (f := Prod.snd), List.zipIdx_map_snd]
    exact List.nodup_range'
  have hfrom : ∀ (replica : ReplicaId) (i : Nat) {id : CursorId},
      (((b.opens log (range, replicas) i).map fun _ =>
        ({ behaviour := b, id := (log.length, i) } : Watched ScanRequest (Row τ))).toOption.map
          Watched.id) = some id → id = (log.length, i) := by
    intro replica i id hid
    cases hopen : b.opens log (range, replicas) i with
    | error e =>
      rw [hopen] at hid
      cases hid
    | ok _ =>
      rw [hopen] at hid
      exact (Option.some.inj hid).symm
  unfold givenIds answers
  rw [List.filterMap_map]
  constructor
  · refine List.pairwise_filterMap.2 (hplaces.imp ?_)
    rintro ⟨replica, i⟩ ⟨other, j⟩ hne id hid id' hid' rfl
    exact hne (Prod.mk.inj ((hfrom replica i hid).symm.trans (hfrom other j hid'))).2
  · intro id hid
    obtain ⟨⟨replica, i⟩, -, hid⟩ := List.mem_filterMap.1 hid
    rw [hfrom replica i hid]

namespace MergedScan

variable (b : Behaviour ScanRequest (Row τ)) (merge : τ → τ → τ)
  {log : CursorLog ScanRequest (Row τ)} {front back : List CursorId}

/-- The cursors that are read ahead of. -/
def idsOf (cs : List (Lookahead (Watched ScanRequest (Row τ)) τ)) : List CursorId :=
  cs.map fun c => c.cursor.id

/-- Peeking keeps a cursor that has a row. One that has none is to be closed. -/
theorem peek_careful {c : Lookahead (Watched ScanRequest (Row τ)) τ}
    (h : Careful log (front ++ c.cursor.id :: back)) :
    ∃ result c' log', (c.peek : Watching ScanRequest (Row τ) _).run log = ((result, c'), log') ∧
      c'.cursor.id = c.cursor.id ∧
      match result with
      | .ok (some _) => Careful log' (front ++ c.cursor.id :: back)
      | _ => Careful (log' ++ [.closed c.cursor.id]) (front ++ back) := by
  unfold Lookahead.peek
  by_cases hread : (c.peeked.isNone && !c.done) = true
  · rw [if_pos hread, Watching.run_bind, Watching.run_next]
    dsimp only
    cases hresult : c.cursor.behaviour.reads log c.cursor.id with
    | error e => exact ⟨_, _, _, rfl, rfl, h.read_closed _⟩
    | ok next =>
      cases next with
      | none => exact ⟨_, _, _, rfl, rfl, h.read_closed _⟩
      | some row => exact ⟨_, _, _, rfl, rfl, h.read_item (by simp) row⟩
  · rw [if_neg hread]
    cases hpeeked : c.peeked with
    | none => exact ⟨_, _, _, rfl, rfl, h.closed⟩
    | some row => exact ⟨_, _, _, rfl, rfl, h⟩

/-- **Looking for the smallest row** closes the cursors that have ended or fail, and no others. -/
theorem smallest_careful (least : Option Bytes)
    (cs : List (Lookahead (Watched ScanRequest (Row τ)) τ)) (h : Careful log (front ++ idsOf cs)) :
    ∃ least' cs' log', (smallest b.scanSource least cs).run log = ((least', cs'), log') ∧
      Careful log' (front ++ idsOf cs') ∧ (least' = none → least = none ∧ cs' = []) := by
  induction cs generalizing front least log with
  | nil => exact ⟨least, [], log, rfl, h, fun hnone => ⟨hnone, rfl⟩⟩
  | cons c cs ih =>
    have h : Careful log (front ++ c.cursor.id :: idsOf cs) := h
    obtain ⟨result, c', log', hpeek, hid, hcareful⟩ := peek_careful h
    unfold smallest
    rw [Watching.run_bind, hpeek]
    match result, hcareful with
    | .ok (some key), hcareful =>
      dsimp only
      rw [← hid, List.append_cons] at hcareful
      obtain ⟨least', cs', log'', hrest, hcareful', hleast⟩ := ih (some _) hcareful
      rw [Watching.run_bind, hrest]
      refine ⟨least', c' :: cs', log'', rfl, ?_, fun hnone => ?_⟩
      · rw [List.append_assoc] at hcareful'
        exact hcareful'
      · cases (hleast hnone).1
    | .ok none, hcareful =>
      rw [← hid] at hcareful
      exact ih least hcareful
    | .error e, hcareful =>
      rw [← hid] at hcareful
      exact ih least hcareful

/-- Taking a row leaves the cursors. -/
theorem idsOf_takeRow (key : Bytes) (acc : Std.ExtTreeMap Bytes τ)
    (cs : List (Lookahead (Watched ScanRequest (Row τ)) τ)) :
    idsOf (takeRow merge key acc cs).2 = idsOf cs := by
  induction cs generalizing acc with
  | nil => rfl
  | cons c cs ih =>
    unfold takeRow Lookahead.take
    cases c.peeked with
    | none => exact congrArg (c.cursor.id :: ·) (ih acc)
    | some row =>
      dsimp only
      split
      · exact congrArg (c.cursor.id :: ·) (ih _)
      · exact congrArg (c.cursor.id :: ·) (ih acc)

theorem mapM_eq_pure {m : Type → Type} [Monad m] [LawfulMonad m] {β γ : Type} {f : β → m γ}
    {g : β → γ} (h : ∀ a, f a = pure (g a)) (l : List β) : l.mapM f = pure (l.map g) := by
  rw [funext h, List.mapM_pure]

theorem idsOf_cursorsOf (answers : List (ReplicaId × Except Failure (Watched ScanRequest (Row τ)))) :
    idsOf (answers.map (cursorsOf (τ := τ))).flatten = givenIds answers := by
  induction answers with
  | nil => rfl
  | cons answer answers ih =>
    obtain ⟨replica, result⟩ := answer
    cases result with
    | error e => exact ih
    | ok cursor => exact congrArg (cursor.id :: ·) ih

/-- **Opening a sub-range** while no cursor is open leaves those open that the scan gets. -/
theorem openSubRange_careful (sub : SubRange) (h : Careful log []) :
    ∃ cs log', (openSubRange b.scanSource sub).run log = (cs, log') ∧ Careful log' (idsOf cs) := by
  have hrun : (openSubRange b.scanSource sub).run log =
      (((b.answers log sub.range sub.replicas).map (cursorsOf (τ := τ))).flatten,
        log ++ [.opened (sub.range, sub.replicas)
          (givenIds (b.answers log sub.range sub.replicas))]) := by
    unfold openSubRange
    rw [Watching.run_bind, Watching.run_bind, mapM_eq_pure (g := cursorsOf)]
    · rfl
    · rintro ⟨replica, result⟩
      cases result <;> rfl
  obtain ⟨hnodup, hnow⟩ := b.givenIds_answers log sub.range sub.replicas
  refine ⟨_, _, hrun, ?_⟩
  rw [idsOf_cursorsOf]
  exact h.opened _ hnodup hnow

/-- A scan that has nothing left: no open cursor and no sub-range to come. -/
def Finished (s : MergedScan (Watched ScanRequest (Row τ)) τ) : Prop := s.cursors = [] ∧ s.pending = []

/-- **The next row** leaves the cursors of the scan open. Where there is none the scan is finished. -/
theorem advance_careful (pending : List SubRange)
    (cs : List (Lookahead (Watched ScanRequest (Row τ)) τ)) (h : Careful log (idsOf cs)) :
    ∃ row s log', (advance merge b.scanSource pending cs).run log = ((row, s), log') ∧
      Careful log' (idsOf s.cursors) ∧ s.closed = false ∧ (row = none → s.Finished) := by
  induction pending generalizing cs log with
  | nil =>
    have h : Careful log ([] ++ idsOf cs) := h
    obtain ⟨least, cs', log', hsmallest, hcareful, hleast⟩ := smallest_careful b none cs h
    unfold advance
    rw [Watching.run_bind, hsmallest]
    cases least with
    | some key =>
      refine ⟨_, _, log', rfl, ?_, rfl, fun hnone => by cases hnone⟩
      rw [idsOf_takeRow]
      exact hcareful
    | none =>
      obtain ⟨-, rfl⟩ := hleast rfl
      exact ⟨none, _, log', rfl, hcareful, rfl, fun _ => ⟨rfl, rfl⟩⟩
  | cons sub pending ih =>
    have h : Careful log ([] ++ idsOf cs) := h
    obtain ⟨least, cs', log', hsmallest, hcareful, hleast⟩ := smallest_careful b none cs h
    unfold advance
    rw [Watching.run_bind, hsmallest]
    cases least with
    | some key =>
      refine ⟨_, _, log', rfl, ?_, rfl, fun hnone => by cases hnone⟩
      rw [idsOf_takeRow]
      exact hcareful
    | none =>
      -- no cursor is left, so those of the next sub-range may be opened
      obtain ⟨-, rfl⟩ := hleast rfl
      obtain ⟨opened, log'', hopen, hopened⟩ := openSubRange_careful b sub hcareful
      dsimp only
      rw [Watching.run_bind, hopen]
      exact ih opened hopened

/-- **Closing a scan** closes the cursors that are open. -/
theorem close_careful (s : MergedScan (Watched ScanRequest (Row τ)) τ)
    (h : Careful log (idsOf s.cursors)) :
    ∃ log', (s.close : Watching ScanRequest (Row τ) _).run log =
      ({ pending := [], closed := true }, log') ∧ Careful log' [] ∧ (s.cursors = [] → log' = log) := by
  have hcursors : ∀ (cs : List (Lookahead (Watched ScanRequest (Row τ)) τ)) log,
      Careful log (idsOf cs) → ∃ log',
        (cs.forM fun c => do let _ ← c.close : Watching ScanRequest (Row τ) PUnit).run log =
          (⟨⟩, log') ∧ Careful log' [] ∧ (cs = [] → log' = log) := by
    intro cs
    induction cs with
    | nil => exact fun log h => ⟨log, rfl, h, fun _ => rfl⟩
    | cons c cs ih =>
      intro log h
      have h : Careful log ([] ++ c.cursor.id :: idsOf cs) := h
      obtain ⟨log', hrun, hcareful, -⟩ := ih _ h.closed
      exact ⟨log', hrun, hcareful, fun hnil => by cases hnil⟩
  obtain ⟨log', hrun, hcareful, hsame⟩ := hcursors s.cursors log h
  refine ⟨log', ?_, hcareful, hsame⟩
  unfold close
  rw [Watching.run_bind, hrun]
  rfl

section Calls

variable {m : Type → Type} [Monad m] {σ : Type} [Cursor m σ (Row τ)]

/-- What the reader of a scan can ask for. -/
inductive Call where
  | next
  | close

def Call.isNext : Call → Bool
  | .next => true
  | .close => false

/-- Carries out a call, which has a reply if it asks for a row. -/
def call (merge : τ → τ → τ) (src : ScanSource m σ) (s : MergedScan σ τ) :
    Call → m (Option (Option (Row τ)) × MergedScan σ τ)
  | .next => do
    let (row, s) ← s.next merge src
    return (some row, s)
  | .close => do
    let s ← s.close
    return (none, s)

/-- Carries out calls in turn, and collects the replies. -/
def run (merge : τ → τ → τ) (src : ScanSource m σ) (s : MergedScan σ τ) :
    List Call → m (List (Option (Row τ)) × MergedScan σ τ)
  | [] => return ([], s)
  | c :: calls => do
    let (reply, s) ← s.call merge src c
    let (replies, s) ← run merge src s calls
    return (reply.toList ++ replies, s)

end Calls

/-- The cursors of a scan are those that are open. A closed scan has none, and nothing is to come. -/
structure Keeps (s : MergedScan (Watched ScanRequest (Row τ)) τ)
    (log : CursorLog ScanRequest (Row τ)) : Prop where
  careful : Careful log (idsOf s.cursors)
  finished : s.closed = true → s.Finished

/-- What a call does: the scan goes on to keep its cursors, and it is finished when it says so. -/
structure Kept (s : MergedScan (Watched ScanRequest (Row τ)) τ) (c : Call)
    (reply : Option (Option (Row τ))) (s' : MergedScan (Watched ScanRequest (Row τ)) τ)
    (log log' : CursorLog ScanRequest (Row τ)) : Prop where
  keeps : s'.Keeps log'
  ended : reply = some none → s'.Finished
  closed : s.closed = true ∨ c = .close → s'.closed = true
  /-- A scan that is finished asks for nothing and has no row. -/
  idle : s.Finished → s'.Finished ∧ log' = log ∧ reply = (if c.isNext then some none else none)

/-- **What one call does.** -/
theorem call_kept {s : MergedScan (Watched ScanRequest (Row τ)) τ} (h : s.Keeps log) (c : Call) :
    ∃ reply s' log', (s.call merge b.scanSource c).run log = ((reply, s'), log') ∧
      Kept s c reply s' log log' := by
  cases c with
  | close =>
    obtain ⟨log', hrun, hcareful, hsame⟩ := close_careful s h.careful
    refine ⟨none, { pending := [], closed := true }, log', ?_, ⟨?_, by simp, fun _ => rfl, ?_⟩⟩
    · unfold call
      rw [Watching.run_bind, hrun]
      rfl
    · exact ⟨hcareful, fun _ => ⟨rfl, rfl⟩⟩
    · exact fun hfin => ⟨⟨rfl, rfl⟩, hsame hfin.1, rfl⟩
  | next =>
    unfold call next
    by_cases hclosed : s.closed = true
    · rw [if_pos hclosed]
      have hfin := h.finished hclosed
      exact ⟨some none, s, log, rfl, h, fun _ => hfin, fun _ => hclosed, fun _ => ⟨hfin, rfl, rfl⟩⟩
    · rw [if_neg hclosed]
      obtain ⟨row, s', log', hrun, hcareful, hopen, hend⟩ :=
        advance_careful b merge s.pending s.cursors h.careful
      refine ⟨some row, s', log', ?_, ⟨?_, ?_, ?_, ?_⟩⟩
      · rw [Watching.run_bind, hrun]
        rfl
      · exact ⟨hcareful, fun hclosed' => by rw [hopen] at hclosed'; cases hclosed'⟩
      · exact fun hreply => hend (Option.some.inj hreply)
      · rintro (hclosed' | hclose)
        · exact absurd hclosed' hclosed
        · cases hclose
      · intro hfin
        have hidle : (advance merge b.scanSource s.pending s.cursors).run log =
            ((none, { pending := [] }), log) := by
          rw [hfin.1, hfin.2]
          unfold advance smallest
          rfl
        rw [hidle] at hrun
        cases hrun
        exact ⟨⟨rfl, rfl⟩, rfl, rfl⟩

/-- A scan that is finished stays so, and asks for nothing. -/
theorem run_finished {s : MergedScan (Watched ScanRequest (Row τ)) τ} (h : s.Keeps log)
    (hfin : s.Finished) (calls : List Call) :
    ∃ s', (run merge b.scanSource s calls).run log =
        ((List.replicate (calls.countP Call.isNext) none, s'), log) ∧ s'.Finished ∧ s'.Keeps log := by
  induction calls generalizing s with
  | nil => exact ⟨s, rfl, hfin, h⟩
  | cons c calls ih =>
    obtain ⟨reply, s', log', hcall, hkept⟩ := call_kept b merge h c
    obtain ⟨hfin', rfl, rfl⟩ := hkept.idle hfin
    obtain ⟨s'', hrun, hfin'', hkeeps⟩ := ih hkept.keeps hfin'
    refine ⟨s'', ?_, hfin'', hkeeps⟩
    unfold run
    rw [Watching.run_bind, hcall]
    dsimp only
    rw [Watching.run_bind, hrun, List.countP_cons]
    cases c with
    | next => simp [Call.isNext, List.replicate_succ]; rfl
    | close => simp [Call.isNext]; rfl

/-- **What any number of calls do.** -/
theorem run_kept {s : MergedScan (Watched ScanRequest (Row τ)) τ} (h : s.Keeps log)
    (calls : List Call) :
    ∃ replies s' log', (run merge b.scanSource s calls).run log = ((replies, s'), log') ∧
      s'.Keeps log' ∧ (s.Finished ∨ none ∈ replies → s'.Finished) ∧
      (s.closed = true ∨ .close ∈ calls → s'.closed = true) := by
  induction calls generalizing s log with
  | nil => exact ⟨[], s, log, rfl, h, by simp, by simp⟩
  | cons c calls ih =>
    obtain ⟨reply, s', log', hcall, hkept⟩ := call_kept b merge h c
    obtain ⟨replies, s'', log'', hrun, hkeeps, hfinished, hclosed⟩ := ih hkept.keeps
    refine ⟨reply.toList ++ replies, s'', log'', ?_, hkeeps, ?_, ?_⟩
    · unfold run
      rw [Watching.run_bind, hcall]
      dsimp only
      rw [Watching.run_bind, hrun]
      rfl
    · rintro (hfin | hnone)
      · exact hfinished (Or.inl (hkept.idle hfin).1)
      · rcases List.mem_append.1 hnone with hnone | hnone
        · exact hfinished (Or.inl (hkept.ended (Option.mem_toList.1 hnone)))
        · exact hfinished (Or.inr hnone)
    · rintro (hclosed' | hclose)
      · exact hclosed (Or.inl (hkept.closed (Or.inl hclosed')))
      · rcases List.mem_cons.1 hclose with rfl | hclose
        · exact hclosed (Or.inl (hkept.closed (Or.inr rfl)))
        · exact hclosed (Or.inr hclose)

/-- What can be said of the cursors of a scan after some calls. -/
structure Tidy (b : Behaviour ScanRequest (Row τ)) (merge : τ → τ → τ) (calls : List Call)
    (replies : List (Option (Row τ))) (s : MergedScan (Watched ScanRequest (Row τ)) τ)
    (log : CursorLog ScanRequest (Row τ)) : Prop where
  /-- When a sub-range is opened, every cursor given before is closed. No cursor is read or closed once
  it is closed. -/
  orderly : log.Orderly
  /-- No cursor is read once it has ended or failed. -/
  prudent : log.Prudent
  atMostOnce : ∀ id, log.closings id ≤ 1
  /-- At the end, or once the scan is closed, every cursor was closed and no sub-range is to come. -/
  exactlyOnce : none ∈ replies ∨ .close ∈ calls →
    s.pending = [] ∧ ∀ id, log.Gave id → log.closings id = 1
  /-- From then on there is no row, and nothing is opened, read or closed. -/
  final : none ∈ replies ∨ .close ∈ calls → ∀ later, ∃ s',
    (run merge b.scanSource s later).run log =
      ((List.replicate (later.countP Call.isNext) none, s'), log)

/-- **A scan closes every cursor once**, whatever its cursors do and however it is read and closed. -/
theorem run_tidy (plan : List SubRange) (calls : List Call) :
    ∃ replies s log,
      (run merge b.scanSource { pending := plan } calls).run [] = ((replies, s), log) ∧
      Tidy b merge calls replies s log := by
  have hstart : Keeps ({ pending := plan } : MergedScan (Watched ScanRequest (Row τ)) τ) [] :=
    ⟨.nil, fun hclosed => by cases hclosed⟩
  obtain ⟨replies, s, log, hrun, hkeeps, hended, hclosed⟩ := run_kept b merge hstart calls
  have hfinished : none ∈ replies ∨ .close ∈ calls → s.Finished := by
    rintro (hnone | hclose)
    · exact hended (Or.inr hnone)
    · exact hkeeps.finished (hclosed (Or.inr hclose))
  refine ⟨replies, s, log, hrun, hkeeps.careful.orderly, hkeeps.careful.prudent,
    hkeeps.careful.orderly.closings_le_one, fun hend => ?_, fun hend later => ?_⟩
  · obtain ⟨hcursors, hpending⟩ := hfinished hend
    have htended := hkeeps.careful.toTended
    rw [hcursors] at htended
    exact ⟨hpending, fun id hgave => htended.closings_eq_one hgave⟩
  · obtain ⟨s', hlater, -⟩ := run_finished b merge hkeeps (hfinished hend) later
    exact ⟨s', hlater⟩

end MergedScan

end QuorumStore
