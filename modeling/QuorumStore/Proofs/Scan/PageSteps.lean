import QuorumStore.Proofs.Cursor
import QuorumStore.Scan.Pager

/-!
# The steps of a pager

Asked for a page, a pager sees to its cursor and then reads from the one it has. Before it reads it leaves
things as they are, finds that nothing can follow, or opens its source; and what becomes of it then is a
function of what the open, or the read, has come to. So it is here that the code of a pager is taken apart.

* `held`, `opened`: the surroundings of a cursor, or of none.
* `Pager.Wants`, `Pager.Ends`: when a pager opens its source, and when it ends.
* `Pager.received`, `Pager.openWith_eq`: what an open leaves of a pager.
* `Pager.Refreshes`, `Pager.refresh_refreshes`: **what a pager does before it reads.**
* `Pager.draw`, `Pager.nextPage_eq`: what it does then.
* `Pager.drawn`: what a read leaves of a pager.
* `Pager.refresh_triple`, `Pager.nextPage_triple`: **what holds after each of its ways holds in the end.**
-/

namespace QuorumStore

open Std.Do

section Held

/-- How many opens a result counts as failed. -/
def failures {β : Type} : Except Failure β → Nat
  | .error _ => 1
  | .ok _ => 0

variable {ps : PostShape.{0}} {σ : Type} (idle : Nat → Assertion ps) (reading : Nat → σ → Assertion ps)

/-- The surroundings of a cursor, or of none, after `n` opens have failed. -/
def held (n : Nat) : Option σ → Assertion ps
  | none => idle n
  | some c => reading n c

/-- The surroundings after an open. -/
def opened (n : Nat) (result : Except Failure σ) : Assertion ps :=
  held idle reading (n + failures result) result.toOption

end Held

namespace Pager

variable {m : Type → Type} {σ α : Type} {src : PageSource m σ α} {p : Pager σ}

section Decisions

/-- A pager opens its source, before the next page, to read pages of a size. -/
def Wants (src : PageSource m σ α) (p : Pager σ) (size : UInt64) : Prop :=
  p.exhausted = false ∧ match p.lastToken with
    | none => p.current = none ∧ size = p.firstSize
    | some token =>
      src.hasNext token = true ∧ shouldReopen p.bestSize p.lastSize = true ∧ size = p.bestSize

theorem Wants.of_none {size : UInt64} (h : Wants src p size) (hnone : p.lastToken = none) :
    p.current = none ∧ size = p.firstSize := by
  have hwants := h.2
  rwa [hnone] at hwants

theorem Wants.of_token {size : UInt64} {token : Bytes} (h : Wants src p size)
    (htoken : p.lastToken = some token) :
    src.hasNext token = true ∧ shouldReopen p.bestSize p.lastSize = true ∧ size = p.bestSize := by
  have hwants := h.2
  rwa [htoken] at hwants

theorem wants_firstSize (hopen : p.exhausted = false) (htoken : p.lastToken = none)
    (hnone : p.current = none) : Wants src p p.firstSize := by
  refine ⟨hopen, ?_⟩
  rw [htoken]
  exact ⟨hnone, rfl⟩

theorem wants_bestSize {token : Bytes} (hopen : p.exhausted = false)
    (htoken : p.lastToken = some token) (hnext : src.hasNext token = true)
    (hreopen : shouldReopen p.bestSize p.lastSize = true) : Wants src p p.bestSize := by
  refine ⟨hopen, ?_⟩
  rw [htoken]
  exact ⟨hnext, hreopen, rfl⟩

/-- A pager finds that nothing can follow its token. -/
def Ends (src : PageSource m σ α) (p : Pager σ) : Prop :=
  p.exhausted = false ∧ ∃ token, p.lastToken = some token ∧ src.hasNext token = false

theorem Ends.of_token {token : Bytes} (h : Ends src p) (htoken : p.lastToken = some token) :
    src.hasNext token = false := by
  obtain ⟨-, last, hlast, hnext⟩ := h
  cases hlast.symm.trans htoken
  exact hnext

/-- A pager when the source has been asked to open with a page size. -/
def received (p : Pager σ) (size : UInt64) : Except Failure σ → Except Failure Unit × Pager σ
  | .error e => (.error e, p)
  | .ok cursor => (.ok (), { p with current := some cursor, lastSize := size })

/-- A pager when its cursor has been asked for a page. The cursor is closed if it has ended. -/
def drawn (src : PageSource m σ α) (p : Pager σ) (cursor : σ) :
    Except Failure (List α × Bool) → Except Failure (List α) × Pager σ
  | .error e => (.error e, { p with current := some cursor })
  | .ok (page, true) => (.ok page, { turnPage src p page with exhausted := true, current := none })
  | .ok (page, false) => (.ok page, { turnPage src p page with current := some cursor })

end Decisions

section Steps

variable [Monad m]

theorem openWith_eq (src : PageSource m σ α) (p : Pager σ) (size : UInt64) :
    openWith src p size = (do return p.received size (← src.openAfter size p.lastToken)) := by
  unfold openWith
  congr 1
  funext result
  cases result <;> rfl

variable [Cursor m σ α]

/-- What a pager does before it reads: nothing, or it ends, or it gives up the cursor it has and opens its
source. -/
inductive Refreshes (src : PageSource m σ α) (p : Pager σ) :
    m (Except Failure Unit × Pager σ) → Prop where
  | kept (hwants : ∀ size, ¬ Wants src p size) (hends : ¬ Ends src p) :
    Refreshes src p (return (.ok (), p))
  | ended (hends : Ends src p) : Refreshes src p (do return (.ok (), ← close p))
  | opened (size : UInt64) (hwants : Wants src p size) :
    Refreshes src p (do openWith src (← closeCurrent p) size)

/-- **A pager sees to its cursor.** -/
theorem refresh_refreshes [LawfulMonad m] (src : PageSource m σ α) (p : Pager σ) :
    Refreshes src p (refresh src p) := by
  unfold refresh
  by_cases hended : p.exhausted = true
  · rw [if_pos hended]
    refine .kept (fun size hwants => ?_) fun hends => ?_
    · exact absurd (hwants.1.symm.trans hended) (by decide)
    · exact absurd (hends.1.symm.trans hended) (by decide)
  rw [if_neg hended]
  have hopen : p.exhausted = false := eq_false_of_ne_true hended
  cases htoken : p.lastToken with
  | none =>
    dsimp only
    have hends : ¬ Ends src p := by
      rintro ⟨-, last, hlast, -⟩
      cases hlast.symm.trans htoken
    cases hcurrent : p.current with
    | none =>
      have hclose : (closeCurrent p : m (Pager σ)) = pure p := by
        unfold closeCurrent
        rw [hcurrent]
      have hopened : Refreshes src p (closeCurrent p >>= fun p' => openWith src p' p.firstSize) :=
        .opened p.firstSize (wants_firstSize hopen htoken hcurrent)
      rw [hclose, pure_bind] at hopened
      exact hopened
    | some cursor =>
      refine .kept (fun size hwants => ?_) hends
      cases (hwants.of_none htoken).1.symm.trans hcurrent
  | some token =>
    dsimp only
    cases hnext : src.hasNext token with
    | false => exact .ended ⟨hopen, token, htoken, hnext⟩
    | true =>
      by_cases hreopen : shouldReopen p.bestSize p.lastSize = true
      · rw [if_neg (by decide), if_pos hreopen]
        exact .opened p.bestSize (wants_bestSize hopen htoken hnext hreopen)
      · rw [if_neg (by decide), if_neg hreopen]
        refine .kept (fun size hwants => hreopen (hwants.of_token htoken).2.1) fun hends => ?_
        cases (hends.of_token htoken).symm.trans hnext

/-- Reads a page from the cursor that a pager has, if it has one. -/
def draw (src : PageSource m σ α) (p : Pager σ) : m (Except Failure (List α) × Pager σ) := do
  match p.current with
  | none => return (.ok [], p)
  | some cursor =>
    match ← Cursor.read p.lastSize.toNat cursor with
    | (.error e, cursor) => return (.error e, { p with current := some cursor })
    | (.ok (page, ended), cursor) =>
      let p := turnPage src { p with current := some cursor } page
      return (.ok page, ← if ended then close p else pure p)

/-- **A page** is read when the pager has seen to its cursor. -/
theorem nextPage_eq (src : PageSource m σ α) (p : Pager σ) :
    nextPage src p = (do
      match ← refresh src p with
      | (.error e, p) => return (.error e, p)
      | (.ok (), p) => draw src p) := rfl

end Steps

section Triples

variable [Monad m] {ps : PostShape.{0}} [WPMonad m ps] [Cursor m σ α]
  {idle : Nat → Assertion ps} {reading : Nat → σ → Assertion ps} {n : Nat}

theorem closeCurrent_spec (hclose : ∀ n (c : σ), ⦃reading n c⦄ (Cursor.close c : m σ) ⦃⇓ _ => idle n⦄)
    (p : Pager σ) :
    ⦃held idle reading n p.current⦄ (closeCurrent p : m _)
    ⦃⇓ p' => ⌜p' = { p with current := none }⌝ ∧ idle n⦄ := by
  unfold closeCurrent
  cases hcurrent : p.current with
  | none =>
    refine Hoare.pure ?_ .rfl
    rw [← hcurrent]
  | some c => exact Hoare.keep (hclose n c) fun _ => Hoare.pure rfl .rfl

/-- **What holds when a pager has seen to its cursor** holds in each of the ways in which it does so. -/
theorem refresh_triple {Q : Except Failure Unit × Pager σ → Prop}
    (hclose : ∀ n (c : σ), ⦃reading n c⦄ (Cursor.close c : m σ) ⦃⇓ _ => idle n⦄)
    (hkept : (∀ size, ¬ Wants src p size) → ¬ Ends src p → Q (.ok (), p))
    (hended : Ends src p → Q (.ok (), { p with exhausted := true, current := none }))
    (hopened : ∀ size, Wants src p size → ⦃idle n⦄ (src.openAfter size p.lastToken)
      ⦃⇓ result => ⌜Q (({ p with current := none } : Pager σ).received size result)⌝ ∧
        opened idle reading n result⦄) :
    ⦃held idle reading n p.current⦄ (refresh src p)
    ⦃⇓ r => ⌜Q r⌝ ∧ held idle reading (n + failures r.1) r.2.current⦄ := by
  have hstep := refresh_refreshes src p
  generalize refresh src p = x at hstep
  cases hstep with
  | kept hwants hends => exact Hoare.pure (hkept hwants hends) .rfl
  | ended hends =>
    refine Hoare.bind (closeCurrent_spec hclose { p with exhausted := true }) ?_
    rintro p' rfl
    exact Hoare.pure (hended hends) .rfl
  | opened size hwants =>
    refine Hoare.bind (closeCurrent_spec hclose p) ?_
    rintro p' rfl
    rw [openWith_eq]
    refine Hoare.bind (hopened size hwants) fun result hresult => Hoare.pure hresult ?_
    cases result <;> exact .rfl

/-- **What holds of a page** holds whatever the read of the cursor has come to. -/
theorem nextPage_triple {A : Except Failure Unit × Pager σ → Prop}
    {Q : Except Failure (List α) × Pager σ → Prop}
    (hclose : ∀ n (c : σ), ⦃reading n c⦄ (Cursor.close c : m σ) ⦃⇓ _ => idle n⦄)
    (hrefresh : ⦃held idle reading n p.current⦄ (refresh src p)
      ⦃⇓ r => ⌜A r⌝ ∧ held idle reading (n + failures r.1) r.2.current⦄)
    (hfailed : ∀ e q, A (.error e, q) → Q (.error e, q))
    (hblank : ∀ q, A (.ok (), q) → q.current = none → Q (.ok [], q))
    (hread : ∀ q c, A (.ok (), q) → q.current = some c →
      ⦃reading n c⦄ (Cursor.read q.lastSize.toNat c : m _)
      ⦃⇓ r => ⌜Q (drawn src q r.2 r.1)⌝ ∧ reading (n + failures r.1) r.2⦄) :
    ⦃held idle reading n p.current⦄ (nextPage src p)
    ⦃⇓ r => ⌜Q r⌝ ∧ held idle reading (n + failures r.1) r.2.current⦄ := by
  rw [nextPage_eq]
  refine Hoare.bind hrefresh ?_
  rintro ⟨result, q⟩ hA
  cases result with
  | error e => exact Hoare.pure (hfailed e q hA) .rfl
  | ok _ =>
    dsimp only
    unfold draw
    cases hcurrent : q.current with
    | none =>
      refine Hoare.pure (hblank q hA hcurrent) ?_
      rw [hcurrent]
      exact .rfl
    | some c =>
      refine Hoare.bind (hread q c hA hcurrent) ?_
      rintro ⟨result, c'⟩ hQ
      cases result with
      | error e => exact Hoare.pure hQ .rfl
      | ok read =>
        obtain ⟨page, ended⟩ := read
        cases ended with
        | false =>
          simp only [Bool.false_eq_true, if_false, pure_bind]
          exact Hoare.pure hQ .rfl
        | true =>
          have hclosed := closeCurrent_spec (n := n) hclose
            { turnPage src { q with current := some c' } page with exhausted := true }
          refine Hoare.bind hclosed ?_
          rintro p' rfl
          exact Hoare.pure hQ .rfl

end Triples

end Pager

end QuorumStore
