import QuorumStore.Proofs.Cluster.Time

/-!
# Cursors on several replicas

A range read asks some replicas at the same time, and waits until each of them has opened a cursor or
failed. What happens on the way is a sequence of steps: time passes, a replica is bound to fail, or it
opens a cursor over its store. What every step keeps holds when the read is done, and also when it is
abandoned.

* `Openings`: the cursors of a range read that is under way.
* `Openings.Step`, `Openings.Steps`: one step, and any number of them.
* `Openings.Opens`: a computation does its work in steps.
* `Run.openAll_opens`: **a range read on several replicas does**, and has an answer from each.
-/

namespace QuorumStore

open Std

variable {α β τ : Type}

/-- A range read under way: the cluster, and what replicas have answered or are bound to answer. -/
structure Openings (τ : Type) where
  /-- The cluster. -/
  cluster : Cluster
  /-- The answers. -/
  answers : List (ReplicaId × Except Failure (Feed (Row τ))) := []

namespace Openings

section Steps

variable (read : RangeRead τ) (range : RowRange) (asked : List ReplicaId)

/-- One step while replicas are asked for a range. -/
inductive Step : Openings τ → Openings τ → Prop where
  /-- Time passes. -/
  | turn {s : Openings τ} {c : Cluster} (h : s.cluster.Turn c) : Step s { s with cluster := c }
  /-- A replica is bound to fail. -/
  | failed {s : Openings τ} {id : ReplicaId} {e : Failure} (hid : id ∈ asked)
      (hrefusal : s.cluster.refusal id = some e) :
      Step s { s with answers := s.answers ++ [(id, .error e)] }
  /-- A replica opens a cursor over its store. -/
  | opened {s : Openings τ} {id : ReplicaId} (hid : id ∈ asked) :
      Step s
        { cluster := (s.cluster.openRange id read range).2
          answers := s.answers ++ [(id, (s.cluster.openRange id read range).1)] }

/-- Any number of steps. -/
abbrev Steps : Openings τ → Openings τ → Prop := Relation.ReflTransGen (Step read range asked)

/-- A computation comes to its end in steps, or is abandoned after some, for which there has to be a
deadline. -/
inductive Opens (x : Run α) (s : Openings τ) (P : α → Openings τ → Prop) : Prop where
  | ended {a : α} {s' : Openings τ} (hsteps : Steps read range asked s s')
    (hrun : x.run.run s.cluster = (.ok a, s'.cluster)) (hend : P a s') : Opens x s P
  | abandoned {s' : Openings τ} (hsteps : Steps read range asked s s')
    (hdeadline : s.cluster.deadline ≠ none)
    (hrun : x.run.run s.cluster = (.error .abandoned, s'.cluster)) : Opens x s P

end Steps

variable {read : RangeRead τ} {range : RowRange} {asked : List ReplicaId} {s s' : Openings τ}

/-- What every step keeps is kept. -/
theorem Steps.keeps {I : Openings τ → Prop} (h : Steps read range asked s s')
    (hstep : ∀ s s', I s → Step read range asked s s' → I s') (hs : I s) : I s' := by
  induction h with
  | refl => exact hs
  | tail _ hlast ih => exact hstep _ _ ih hlast

theorem steps_turns {c c' : Cluster} (h : c.Turns c')
    (answers : List (ReplicaId × Except Failure (Feed (Row τ)))) :
    Steps read range asked ⟨c, answers⟩ ⟨c', answers⟩ := by
  induction h with
  | refl => exact .refl
  | tail _ hlast ih => exact ih.tail (.turn hlast)

theorem Step.deadline (h : Step read range asked s s') : s'.cluster.deadline = s.cluster.deadline := by
  cases h with
  | turn h => exact h.deadline
  | failed => rfl
  | opened =>
    unfold Cluster.openRange
    split <;> rfl

theorem Steps.deadline (h : Steps read range asked s s') :
    s'.cluster.deadline = s.cluster.deadline :=
  h.keeps (I := fun s' => s'.cluster.deadline = s.cluster.deadline)
    (fun _ _ hs hstep => hstep.deadline.trans hs) rfl

/-- An answer that is known stays known. -/
theorem Steps.answers_subset (h : Steps read range asked s s') : s.answers ⊆ s'.answers := by
  refine h.keeps (I := fun s' => s.answers ⊆ s'.answers) (fun _ _ hs hstep => ?_) (List.Subset.refl _)
  cases hstep with
  | turn => exact hs
  | failed | opened => exact List.Subset.trans hs (List.subset_append_left _ _)

variable {x : Run α} {f : α → Run β} {P : α → Openings τ → Prop} {Q : β → Openings τ → Prop}

theorem Opens.pure {a : α} (h : P a s) : Opens read range asked (Pure.pure a : Run α) s P :=
  .ended .refl rfl h

/-- A computation ends as what follows its first part ends. -/
theorem Opens.bind (h : Opens read range asked x s P)
    (hf : ∀ a s', Steps read range asked s s' → P a s' → Opens read range asked (f a) s' Q) :
    Opens read range asked (x >>= f) s Q := by
  cases h with
  | abandoned hsteps hdeadline hrun => exact .abandoned hsteps hdeadline (Run.run_bind_error hrun)
  | ended hsteps hrun hend =>
    cases hf _ _ hsteps hend with
    | abandoned hsteps' hdeadline hrun' =>
      exact .abandoned (hsteps.trans hsteps') (hsteps.deadline ▸ hdeadline)
        ((Run.run_bind_ok hrun).trans hrun')
    | ended hsteps' hrun' hend' =>
      exact .ended (hsteps.trans hsteps') ((Run.run_bind_ok hrun).trans hrun') hend'

theorem Opens.mono {R : α → Openings τ → Prop} (h : Opens read range asked x s P)
    (hmono : ∀ a s', P a s' → R a s') : Opens read range asked x s R := by
  cases h with
  | abandoned hsteps hdeadline hrun => exact .abandoned hsteps hdeadline hrun
  | ended hsteps hrun hend => exact .ended hsteps hrun (hmono _ _ hend)

/-- A computation that looks at the cluster first. -/
theorem Opens.get_bind {f : Cluster → Run β} (h : Opens read range asked (f s.cluster) s Q) :
    Opens read range asked (get >>= f) s Q := by
  cases h with
  | abandoned hsteps hdeadline hrun => exact .abandoned hsteps hdeadline hrun
  | ended hsteps hrun hend => exact .ended hsteps hrun hend

/-- Answers may be known before anything else happens. -/
theorem Opens.of_steps (hsteps : Steps read range asked s s') (hcluster : s'.cluster = s.cluster)
    (h : Opens read range asked x s' P) : Opens read range asked x s P := by
  cases h with
  | abandoned hsteps' hdeadline hrun =>
    exact .abandoned (hsteps.trans hsteps') (hcluster ▸ hdeadline) (hcluster ▸ hrun)
  | ended hsteps' hrun hend => exact .ended (hsteps.trans hsteps') (hcluster ▸ hrun) hend

/-- An opening whose answer is known: it is settled with it, or waits for it if it is bound to fail. -/
def Known (s : Openings τ) : ReplicaId × Opening τ → Prop
  | (id, .settled result) => (id, result) ∈ s.answers
  | (id, .waiting _ (some e)) => (id, .error e) ∈ s.answers
  | (_, .waiting _ none) => True

theorem Known.mono {o : ReplicaId × Opening τ} (h : s.Known o) (hsteps : Steps read range asked s s') :
    s'.Known o := by
  obtain ⟨id, opening⟩ := o
  rcases opening with result | ⟨due, _ | e⟩
  · exact hsteps.answers_subset h
  · trivial
  · exact hsteps.answers_subset h

end Openings

namespace Run

open Openings

variable {read : RangeRead τ} {range : RowRange} {asked : List ReplicaId} {s : Openings τ}
  {id : ReplicaId}

theorem waitUntil_opens (t : Nat) (s : Openings τ) :
    Opens read range asked (waitUntil t) s fun _ _ => True := by
  rcases waitUntil_cases s.cluster t with hrun | ⟨deadline, hdeadline, hrun⟩
  · have hturns : s.cluster.Turns (if t ≤ s.cluster.now then s.cluster else s.cluster.advanceTo t) := by
      split
      · exact .refl
      · exact s.cluster.turns_advanceTo t
    exact .ended (steps_turns hturns s.answers) hrun trivial
  · exact .abandoned (steps_turns (s.cluster.turns_advanceTo deadline) s.answers)
      (hdeadline ▸ Option.some_ne_none _) hrun

/-- A replica that is not bound to fail opens a cursor. -/
theorem settle_opens (hid : id ∈ asked) {fate : Option Failure}
    (hfate : ∀ e, fate = some e → (id, .error e) ∈ s.answers) :
    Opens read range asked (settle id read range fate) s fun result s' => (id, result) ∈ s'.answers := by
  cases fate with
  | some e => exact .pure (hfate e rfl)
  | none =>
    exact .ended (.single (.opened hid)) rfl (List.mem_append_right _ (List.mem_singleton_self _))

/-- A replica that is bound to fail when it is asked is known to. -/
theorem exists_bound (read : RangeRead τ) (range : RowRange) (hid : id ∈ asked) (s : Openings τ) :
    ∃ s', Steps read range asked s s' ∧ s'.cluster = s.cluster ∧
      ∀ e, s.cluster.refusal id = some e → (id, .error e) ∈ s'.answers := by
  cases hrefusal : s.cluster.refusal id with
  | none => exact ⟨s, .refl, rfl, fun _ he => nomatch he⟩
  | some e =>
    refine ⟨_, .single (.failed hid hrefusal), rfl, fun e' he' => ?_⟩
    obtain rfl := Option.some.inj he'
    exact List.mem_append_right _ (List.mem_singleton_self _)

/-- A replica is asked. -/
theorem beginOpening_opens (hid : id ∈ asked) (s : Openings τ) :
    Opens read range asked (beginOpening read range id) s fun o s' => o.1 = id ∧ s'.Known o := by
  obtain ⟨bound, hsteps, hcluster, hbound⟩ := exists_bound read range hid s
  refine .of_steps hsteps hcluster (.get_bind ?_)
  rw [← hcluster] at hbound
  unfold Cluster.refusal at hbound
  cases hadmission : bound.cluster.admission id with
  | refused e =>
    rw [hadmission] at hbound
    exact .pure ⟨rfl, hbound e rfl⟩
  | delayed wait fate =>
    rw [hadmission] at hbound
    dsimp only
    split
    · exact (settle_opens hid hbound).bind fun result s' _ hresult => .pure ⟨rfl, hresult⟩
    · refine .pure ⟨rfl, ?_⟩
      cases fate with
      | none => trivial
      | some e => exact hbound e rfl

/-- All replicas are asked. -/
theorem mapM_beginOpening_opens {ids : List ReplicaId} (hids : ∀ id ∈ ids, id ∈ asked) (s : Openings τ) :
    Opens read range asked (ids.mapM (beginOpening read range)) s fun openings s' =>
      openings.map Prod.fst = ids ∧ ∀ o ∈ openings, s'.Known o := by
  induction ids generalizing s with
  | nil => exact .pure ⟨rfl, fun _ ho => absurd ho List.not_mem_nil⟩
  | cons id ids ih =>
    obtain ⟨hid, hids⟩ := List.forall_mem_cons.1 hids
    rw [List.mapM_cons]
    refine (beginOpening_opens hid s).bind fun o s₁ _ ho => (ih hids s₁).bind fun openings s₂ hsteps ho' => ?_
    exact .pure ⟨by rw [List.map_cons, ho.1, ho'.1],
      List.forall_mem_cons.2 ⟨ho.2.mono hsteps, ho'.2⟩⟩

/-- What is due at a time is settled then. -/
theorem settleDue_opens (t : Nat) {openings : List (ReplicaId × Opening τ)}
    (hids : ∀ o ∈ openings, o.1 ∈ asked) (s : Openings τ) (hknown : ∀ o ∈ openings, s.Known o) :
    Opens read range asked (settleDue read range t openings) s fun openings' s' =>
      openings'.map Prod.fst = openings.map Prod.fst ∧ (∀ o ∈ openings', s'.Known o) ∧
        ∀ o ∈ openings', ∀ due ∈ o.2.due?, due ≠ t ∧ ∃ o ∈ openings, due ∈ o.2.due? := by
  induction openings generalizing s with
  | nil =>
    exact .pure ⟨rfl, fun _ ho => absurd ho List.not_mem_nil, fun _ ho => absurd ho List.not_mem_nil⟩
  | cons first openings ih =>
    obtain ⟨id, opening⟩ := first
    obtain ⟨hid, hids⟩ := List.forall_mem_cons.1 hids
    obtain ⟨hfirst, hrest⟩ := List.forall_mem_cons.1 hknown
    -- once the first is seen to, the others follow
    have hcont : ∀ (o : Opening τ) (s₁ : Openings τ), Steps read range asked s s₁ → s₁.Known (id, o) →
        (∀ due ∈ o.due?, due ≠ t ∧ due ∈ opening.due?) →
        Opens read range asked (do return (id, o) :: (← settleDue read range t openings)) s₁
          fun openings' s' => openings'.map Prod.fst = id :: openings.map Prod.fst ∧
            (∀ o ∈ openings', s'.Known o) ∧ ∀ o ∈ openings', ∀ due ∈ o.2.due?,
              due ≠ t ∧ ∃ o ∈ (id, opening) :: openings, due ∈ o.2.due? := by
      intro o s₁ hsteps ho hdue
      refine (ih hids s₁ fun o ho => (hrest o ho).mono hsteps).bind fun openings' s' hsteps' h => ?_
      obtain ⟨hsame, hknown', hdue'⟩ := h
      refine .pure ⟨congrArg (id :: ·) hsame, List.forall_mem_cons.2 ⟨ho.mono hsteps', hknown'⟩,
        List.forall_mem_cons.2 ⟨fun due hd => ?_, fun o ho due hd => ?_⟩⟩
      · exact ⟨(hdue due hd).1, _, List.mem_cons_self, (hdue due hd).2⟩
      · obtain ⟨hne, o', ho', hd'⟩ := hdue' o ho due hd
        exact ⟨hne, o', List.mem_cons_of_mem _ ho', hd'⟩
    unfold settleDue
    cases opening with
    | settled result => exact hcont _ s .refl hfirst fun _ hd => nomatch hd
    | waiting due fate =>
      dsimp only
      split
      · have hfate : ∀ e, fate = some e → (id, .error e) ∈ s.answers := by
          rintro e rfl
          exact hfirst
        exact (settle_opens hid hfate).bind fun result s₁ hsteps hresult =>
          hcont (.settled result) s₁ hsteps hresult fun _ hd => nomatch hd
      · rename_i hne
        refine hcont (.waiting due fate) s .refl hfirst fun due' hd => ⟨?_, hd⟩
        obtain rfl := Option.some.inj hd
        exact hne

/-- **Openings are settled when they are due.** -/
theorem settleAll_opens (times : List Nat) {openings : List (ReplicaId × Opening τ)}
    (hids : ∀ o ∈ openings, o.1 ∈ asked) (s : Openings τ) (hknown : ∀ o ∈ openings, s.Known o)
    (hdue : ∀ o ∈ openings, ∀ due ∈ o.2.due?, due ∈ times) :
    Opens read range asked (settleAll read range times openings) s fun openings' s' =>
      openings'.map Prod.fst = openings.map Prod.fst ∧ (∀ o ∈ openings', s'.Known o) ∧
        ∀ o ∈ openings', o.2.due? = none := by
  induction times generalizing s openings with
  | nil =>
    refine .pure ⟨rfl, hknown, fun o ho => Option.eq_none_iff_forall_not_mem.2 fun due hd => ?_⟩
    exact absurd (hdue o ho due hd) List.not_mem_nil
  | cons t times ih =>
    refine (waitUntil_opens t s).bind fun _ s₁ hsteps _ => ?_
    refine (settleDue_opens t hids s₁ fun o ho => (hknown o ho).mono hsteps).bind
      fun openings₁ s₂ _ h => ?_
    obtain ⟨hsame, hknown₁, hdue₁⟩ := h
    refine (ih (fun o ho => ?_) s₂ hknown₁ fun o ho due hd => ?_).mono fun openings₂ s₃ h =>
      ⟨h.1.trans hsame, h.2⟩
    · obtain ⟨o', ho', heq⟩ := List.mem_map.1 (hsame ▸ List.mem_map_of_mem (f := Prod.fst) ho)
      exact heq ▸ hids o' ho'
    · obtain ⟨hne, o', ho', hd'⟩ := hdue₁ o ho due hd
      exact (List.mem_cons.1 (hdue o' ho' due hd')).resolve_left hne

/-- Openings that are all settled are answers. -/
theorem answers_of_settled {openings : List (ReplicaId × Opening τ)}
    (hknown : ∀ o ∈ openings, s.Known o) (hsettled : ∀ o ∈ openings, o.2.due? = none) :
    (openings.filterMap fun (id, o) =>
        match o with
        | .settled result => some (id, result)
        | .waiting .. => none).map Prod.fst = openings.map Prod.fst ∧
      ∀ o ∈ openings.filterMap fun (id, o) =>
        match o with
        | .settled result => some (id, result)
        | .waiting .. => none, o ∈ s.answers := by
  induction openings with
  | nil => exact ⟨rfl, fun _ ho => absurd ho List.not_mem_nil⟩
  | cons o openings ih =>
    obtain ⟨hfirst, hknown⟩ := List.forall_mem_cons.1 hknown
    obtain ⟨hdue, hsettled⟩ := List.forall_mem_cons.1 hsettled
    obtain ⟨hsame, hanswers⟩ := ih hknown hsettled
    obtain ⟨id, result | ⟨due, fate⟩⟩ := o
    · exact ⟨congrArg (id :: ·) hsame, List.forall_mem_cons.2 ⟨hfirst, hanswers⟩⟩
    · cases hdue

/-- **A range read on several replicas** has an answer from each of them. -/
theorem openAll_opens (read : RangeRead τ) (range : RowRange) (asked : List ReplicaId) (s : Openings τ) :
    Opens read range asked (openAll read range asked) s fun opened s' =>
      opened.map Prod.fst = asked ∧ ∀ o ∈ opened, o ∈ s'.answers := by
  refine (mapM_beginOpening_opens (fun _ hid => hid) s).bind fun openings s₁ _ h => ?_
  obtain ⟨hsame, hknown⟩ := h
  have hids : ∀ o ∈ openings, o.1 ∈ asked := fun o ho => hsame ▸ List.mem_map_of_mem ho
  -- what waits is due at one of the times waited for
  have hdue : ∀ o ∈ openings, ∀ due ∈ o.2.due?,
      due ∈ (openings.filterMap fun o => o.2.due?).mergeSort :=
    fun o ho due hd => List.mem_mergeSort.2 (List.mem_filterMap.2 ⟨o, ho, hd⟩)
  refine (settleAll_opens _ hids s₁ hknown hdue).bind fun settled s₂ _ h => .pure ?_
  obtain ⟨hsame', hknown', hsettled⟩ := h
  rw [hsame] at hsame'
  exact hsame' ▸ answers_of_settled hknown' hsettled

end Run

end QuorumStore
