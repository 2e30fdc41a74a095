import QuorumStore.Proofs.Cluster.Time
import QuorumStore.Proofs.Quorum.Drain

/-!
# The calls of a request

A request makes its calls side by side and takes their answers as they come. What happens on the way is
a sequence of steps: a call is refused, arrives and waits, fails or reaches its store, time passes, and
answers that have come are noted. What every step keeps holds when the request ends, and from the state
that it has come to then it is answered or abandoned.

* `Fanout`: a request under way, on a cluster.
* `Fanout.Step`, `Fanout.Steps`: one step, and any number of them.
* `Fanout.steps_beginAll`, `Fanout.steps_finishAll`: calls arrive, and end.
* `Fanout.Ends`: how a request ends.
* `QuorumRequest.proceed_ends`: the loop that takes answers and waits for more.
* `QuorumRequest.run_endsInSteps`: **a request comes to its end in steps.**
-/

namespace QuorumStore

open Std Quorum

variable {κ υ τ α : Type}

/-- A request whose calls are under way, and the cluster that it runs on. -/
structure Fanout (τ : Type) where
  /-- The cluster. -/
  cluster : Cluster
  /-- The calls that have not arrived at their replicas. -/
  planned : List (Nat × ReplicaId × Verb τ)
  /-- The calls that wait. -/
  waiting : List (WaitingCall τ) := []
  /-- The calls that have ended, in the order in which they have done so. -/
  ended : List (Completion τ) := []
  /-- What has been noted of answers. -/
  remarks : List Remark := []

namespace Fanout

section Steps

variable (r : QuorumRequest κ υ τ α)

/-- One step while a request runs. -/
inductive Step : Fanout τ → Fanout τ → Prop where
  /-- Time passes. -/
  | turn {s : Fanout τ} {c : Cluster} (h : s.cluster.Turn c) : Step s { s with cluster := c }
  /-- A call is refused. -/
  | refused {s : Fanout τ} {ticket : Nat} {replica : ReplicaId} {verb : Verb τ}
      {rest : List (Nat × ReplicaId × Verb τ)} {e : Failure}
      (hplanned : s.planned = (ticket, replica, verb) :: rest)
      (hadmission : s.cluster.admission replica = .refused e) :
      Step s { s with planned := rest, ended := s.ended ++ [⟨ticket, replica, .error e⟩] }
  /-- A call arrives at its replica, and waits. -/
  | arrived {s : Fanout τ} {ticket : Nat} {replica : ReplicaId} {verb : Verb τ}
      {rest : List (Nat × ReplicaId × Verb τ)} {wait : Nat} {fate : Option Failure}
      (hplanned : s.planned = (ticket, replica, verb) :: rest)
      (hadmission : s.cluster.admission replica = .delayed wait fate) :
      Step s
        { s with
          planned := rest
          waiting := ⟨s.cluster.now + wait, ticket, replica, verb, fate⟩ :: s.waiting }
  /-- It does not matter in which order calls wait. -/
  | sorted {s : Fanout τ} {waiting : List (WaitingCall τ)} (h : s.waiting.Perm waiting) :
      Step s { s with waiting }
  /-- A call has waited, and fails as it is bound to. -/
  | failed {s : Fanout τ} {call : WaitingCall τ} {rest : List (WaitingCall τ)} {e : Failure}
      (hwaiting : s.waiting = call :: rest) (hfate : call.fate = some e) :
      Step s
        { s with waiting := rest, ended := s.ended ++ [⟨call.ticket, call.replica, .error e⟩] }
  /-- A call has waited, and reaches its store. -/
  | reached {s : Fanout τ} {call : WaitingCall τ} {rest : List (WaitingCall τ)}
      (hwaiting : s.waiting = call :: rest) (hfate : call.fate = none) :
      Step s
        { s with
          cluster := (s.cluster.call call.replica call.verb).2
          waiting := rest
          ended := s.ended ++
            [⟨call.ticket, call.replica, (s.cluster.call call.replica call.verb).1⟩] }
  /-- Answers are noted. -/
  | noted {s : Fanout τ} (remarks : List Remark) :
      Step s
        { s with
          cluster := { s.cluster with telemetry := r.observe s.cluster.telemetry remarks }
          remarks := s.remarks ++ remarks }

/-- Any number of steps. -/
abbrev Steps : Fanout τ → Fanout τ → Prop := Relation.ReflTransGen (Step r)

end Steps

variable {r : QuorumRequest κ υ τ α} {s s' : Fanout τ}

/-- What every step keeps is kept. -/
theorem Steps.keeps {I : Fanout τ → Prop} (h : Steps r s s')
    (hstep : ∀ s s', I s → Step r s s' → I s') (hs : I s) : I s' := by
  induction h with
  | refl => exact hs
  | tail _ hlast ih => exact hstep _ _ ih hlast

theorem steps_turns {c c' : Cluster} (h : c.Turns c') (planned : List (Nat × ReplicaId × Verb τ))
    (waiting : List (WaitingCall τ)) (ended : List (Completion τ)) (remarks : List Remark) :
    Steps r ⟨c, planned, waiting, ended, remarks⟩ ⟨c', planned, waiting, ended, remarks⟩ := by
  induction h with
  | refl => exact .refl
  | tail _ hlast ih => exact ih.tail (.turn hlast)

/-- A call whose wait is over ends. -/
theorem step_finish (c : Cluster) (planned : List (Nat × ReplicaId × Verb τ)) (call : WaitingCall τ)
    (waiting : List (WaitingCall τ)) (ended : List (Completion τ)) (remarks : List Remark) :
    Step r ⟨c, planned, call :: waiting, ended, remarks⟩
      ⟨(c.finish call).2, planned, waiting, ended ++ [(c.finish call).1], remarks⟩ := by
  unfold Cluster.finish
  split
  · rename_i e hfate
    exact .failed rfl hfate
  · rename_i hfate
    exact .reached rfl hfate

/-- Calls whose wait is over end. -/
theorem steps_finishAll (c : Cluster) (planned : List (Nat × ReplicaId × Verb τ))
    (calls waiting : List (WaitingCall τ)) (ended : List (Completion τ)) (remarks : List Remark) :
    Steps r ⟨c, planned, calls ++ waiting, ended, remarks⟩
      ⟨(c.finishAll calls).2, planned, waiting, ended ++ (c.finishAll calls).1, remarks⟩ := by
  induction calls generalizing c ended with
  | nil =>
    unfold Cluster.finishAll
    rw [List.append_nil]
    exact .refl
  | cons call calls ih =>
    have hrest := ih (c.finish call).2 (ended ++ [(c.finish call).1])
    rw [List.append_assoc] at hrest
    exact hrest.head (step_finish c planned call (calls ++ waiting) ended remarks)

/-- A call arrives: it ends at once, or waits beside the others. -/
theorem steps_begin (c : Cluster) (ticket : Nat) (replica : ReplicaId) (verb : Verb τ)
    (planned : List (Nat × ReplicaId × Verb τ)) (waiting : List (WaitingCall τ))
    (ended : List (Completion τ)) (remarks : List Remark) :
    Steps r ⟨c, (ticket, replica, verb) :: planned, waiting, ended, remarks⟩
      ⟨(c.begin ticket replica verb).2.2, planned, (c.begin ticket replica verb).2.1 ++ waiting,
        ended ++ (c.begin ticket replica verb).1, remarks⟩ := by
  unfold Cluster.begin
  split
  · rename_i e hadmission
    exact .single (.refused rfl hadmission)
  · rename_i wait fate hadmission
    have harrived : Step r ⟨c, (ticket, replica, verb) :: planned, waiting, ended, remarks⟩
        ⟨c, planned, ⟨c.now + wait, ticket, replica, verb, fate⟩ :: waiting, ended, remarks⟩ :=
      .arrived rfl hadmission
    dsimp only
    split
    · exact (Relation.ReflTransGen.single harrived).tail (step_finish c planned _ waiting ended remarks)
    · rw [List.append_nil]
      exact .single harrived

/-- Calls arrive in turn. -/
theorem steps_beginAll (c : Cluster) (calls : List (Nat × ReplicaId × Verb τ))
    (waiting : List (WaitingCall τ)) (ended : List (Completion τ)) (remarks : List Remark) :
    Steps r ⟨c, calls, waiting, ended, remarks⟩
      ⟨(c.beginAll calls).2.2, [], (c.beginAll calls).2.1 ++ waiting, ended ++ (c.beginAll calls).1,
        remarks⟩ := by
  induction calls generalizing c waiting ended with
  | nil =>
    unfold Cluster.beginAll
    rw [List.append_nil]
    exact .refl
  | cons call calls ih =>
    obtain ⟨ticket, replica, verb⟩ := call
    have hfirst := steps_begin (r := r) c ticket replica verb calls waiting ended remarks
    have hrest := ih (c.begin ticket replica verb).2.2
      ((c.begin ticket replica verb).2.1 ++ waiting) (ended ++ (c.begin ticket replica verb).1)
    unfold Cluster.beginAll
    dsimp only
    generalize c.begin ticket replica verb = begun at hfirst hrest
    rw [List.append_assoc] at hrest
    refine (hfirst.trans hrest).tail (.sorted ?_)
    -- the calls that wait come out in the order in which they are due
    have hinsert := foldr_insertWaiting_perm begun.2.1 (begun.2.2.beginAll calls).2.1
    refine (List.perm_append_comm_assoc _ begun.2.1 waiting).trans ?_
    rw [← List.append_assoc]
    exact hinsert.symm.append_right waiting

/-- How a request ends that has come to the state `s`. -/
inductive Ends [Ord υ] [TransOrd υ] (r : QuorumRequest κ υ τ α) (s : Fanout τ) :
    Except Halt (Except Failure α) × Cluster → Prop where
  /-- It has its verdict on the calls that have ended, or no more calls. The others go on if it is an
  answered write. -/
  | concluded {g : Gathering υ α} {progress : Progress}
      (hdrain : r.drain r.start s.ended = (g, s.remarks, progress))
      (hplanned : s.planned = [] ∨ r.start.tally.finished = true ∧ s.planned = r.calls)
      (hwaiting : progress = .undecided → s.waiting = []) :
      Ends r s (.ok (r.outcome g progress),
        { s.cluster with
          telemetry := r.observeEnd s.cluster.telemetry g progress
          late := (match progress with
            | .answered => r.mode.late s.waiting
            | _ => []).foldl (fun late call => Cluster.enqueue call late) s.cluster.late })
  /-- It is abandoned. Its calls go on if it is a write, those that wait and those that have not
  arrived. -/
  | abandoned {deadline : Nat} {left : List LateCall} (hdeadline : s.cluster.deadline = some deadline)
      (hleft : s.planned = [] ∧ left = r.mode.late s.waiting ∨
        s.waiting = [] ∧ left = r.mode.queued s.cluster.now (s.planned.map Prod.snd)) :
      Ends r s (.error .abandoned,
        { s.cluster with
          late := left.foldl (fun late call => Cluster.enqueue call late) s.cluster.late }.advanceTo
            deadline)

end Fanout

namespace QuorumRequest

theorem calls_eq_nil {r : QuorumRequest κ υ τ α} (h : r.plan = []) : r.calls = [] := by
  unfold calls
  rw [h]
  rfl

variable [Ord υ] [TransOrd υ] {r : QuorumRequest κ υ τ α}

/-- A request that has come to a cluster and has been counted. -/
def fanout (r : QuorumRequest κ υ τ α) (c : Cluster) : Fanout τ where
  cluster := { c with telemetry := c.telemetry.count (·.startRequest r.operation) }
  planned := r.calls

/-- **The loop that takes answers and waits for more** comes to its end in steps, where it has taken the
answers `before` without a verdict. -/
theorem proceed_ends {g : Gathering υ α} {before : List (Completion τ)} {remarks : List Remark}
    (hbefore : r.drain r.start before = (g, remarks, .undecided)) (c : Cluster)
    (waiting : List (WaitingCall τ)) (done : List (Completion τ)) :
    ∃ s, Fanout.Steps r ⟨c, [], waiting, before ++ done, remarks⟩ s ∧
      s.Ends r ((r.proceed g waiting done).run.run c) := by
  induction hlen : waiting.length using Nat.strongRecOn
    generalizing c g before done waiting remarks with
  | _ n ih =>
  rw [proceed]
  split
  rename_i g' more progress hnext
  rw [Run.run_bind_ok (Run.run_modify _ c)]
  have hdrain : r.drain r.start (before ++ done) = (g', remarks ++ more, progress) := by
    rw [drain_append (by rw [hbefore]) done, hbefore, hnext]
  have hnoted : Fanout.Step r ⟨c, [], waiting, before ++ done, remarks⟩
      ⟨{ c with telemetry := r.observe c.telemetry more }, [], waiting, before ++ done,
        remarks ++ more⟩ := .noted more
  split
  · rename_i first rest
    rcases Run.awaitCalls_cases { c with telemetry := r.observe c.telemetry more } first.due
      (r.mode.late (first :: rest)) with ⟨c₁, hrun, hturns⟩ | ⟨deadline, hdeadline, hrun⟩
    · rw [Run.run_bind_ok hrun]
      -- the calls that are due end, and the loop goes on with the others
      let ending := rest.takeWhile fun call => decide (call.due = first.due)
      let later := rest.dropWhile fun call => decide (call.due = first.due)
      have hsplit : first :: rest = (first :: ending) ++ later := by
        rw [List.cons_append, List.takeWhile_append_dropWhile]
      have hshorter : later.length < n := by
        rw [← hlen, List.length_cons]
        exact Nat.lt_succ_of_le (List.dropWhile_sublist _).length_le
      obtain ⟨s, hsteps, hends⟩ := ih _ hshorter hdrain (c₁.finishAll (first :: ending)).2 later
        (c₁.finishAll (first :: ending)).1 rfl
      have hdue := Fanout.steps_finishAll (r := r) c₁ [] (first :: ending) later (before ++ done)
        (remarks ++ more)
      rw [← hsplit] at hdue
      exact ⟨s, (((Relation.ReflTransGen.single hnoted).trans
        (Fanout.steps_turns hturns _ _ _ _)).trans hdue).trans hsteps, hends⟩
    · rw [Run.run_bind_error hrun]
      exact ⟨_, .single hnoted, .abandoned hdeadline (Or.inl ⟨rfl, rfl⟩)⟩
  · rename_i hopen
    refine ⟨_, .single hnoted, ?_⟩
    have hwaiting : progress = .undecided → waiting = [] := by
      intro hundecided
      cases waiting with
      | nil => rfl
      | cons first rest => exact (hopen first rest hundecided rfl).elim
    have hends := Fanout.Ends.concluded (s := ⟨{ c with telemetry := r.observe c.telemetry more }, [],
      waiting, before ++ done, remarks ++ more⟩) hdrain (Or.inl rfl) hwaiting
    unfold conclude
    cases progress <;> exact hends

/-- **A request comes to its end in steps**, whatever happens on its cluster. -/
theorem run_endsInSteps (r : QuorumRequest κ υ τ α) (c : Cluster) :
    ∃ s, Fanout.Steps r (r.fanout c) s ∧ s.Ends r (r.run.run.run c) := by
  unfold QuorumRequest.run
  rw [Run.run_bind_ok (Run.run_count _ c)]
  dsimp only
  split
  · rename_i hfin
    have hdrain : r.drain r.start [] = (r.start, [], .answered) := by
      unfold drain
      rw [if_pos hfin]
    exact ⟨_, .refl, .concluded (s := r.fanout c) hdrain (Or.inr ⟨hfin, rfl⟩) fun _ => rfl⟩
  · rename_i hopen
    have hdrain : r.drain r.start [] = (r.start, [], .undecided) := by
      unfold drain
      rw [if_neg hopen]
    split
    · rename_i hplan
      have hnone : (r.fanout c).planned = [] := calls_eq_nil (List.isEmpty_iff.1 hplan)
      exact ⟨_, .refl, .concluded (s := r.fanout c) hdrain (Or.inl hnone) fun _ => rfl⟩
    · rw [Run.run_bind_ok (Run.run_get _)]
      dsimp only
      rcases Run.awaitCalls_cases
        { c with telemetry := c.telemetry.count (·.startRequest r.operation) } c.now
        (r.mode.queued c.now (r.calls.map Prod.snd)) with ⟨c₁, hrun, hturns⟩ | ⟨deadline, hdeadline, hrun⟩
      · rw [Run.run_bind_ok hrun]
        have hbegun := Fanout.steps_beginAll (r := r) c₁ r.calls [] [] []
        rw [List.append_nil] at hbegun
        obtain ⟨s, hsteps, hends⟩ := proceed_ends hdrain (c₁.beginAll r.calls).2.2
          (c₁.beginAll r.calls).2.1 (c₁.beginAll r.calls).1
        exact ⟨s, ((Fanout.steps_turns hturns _ _ _ _).trans hbegun).trans hsteps, hends⟩
      · rw [Run.run_bind_error hrun]
        exact ⟨_, .refl, .abandoned (s := r.fanout c) hdeadline (Or.inr ⟨rfl, rfl⟩)⟩

end QuorumRequest

end QuorumStore
