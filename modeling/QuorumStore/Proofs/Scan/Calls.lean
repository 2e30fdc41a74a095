import Mathlib.Data.List.Induction
import QuorumStore.Proofs.Scan.Pages

/-!
# Reading page by page

The reader of a pager asks for pages, reports and closes in any order. Whatever fails meanwhile, the
pages it was given are a front of the source, and the end of them is final.

* `Pager.call`, `Pager.run`: one call of a reader, and any number of them.
* `Pager.run_exhausted`: from the end on nothing is asked of the source.
* `Pager.call_placed`, `Pager.run_placed`: where a pager is after calls.
* `Pager.run_paged`: **pages leave no gap, and the end is final.**
* `Pager.run_ends`: **an empty page means the end**, unless the pager is stranded.
-/

namespace QuorumStore

open Std.Do

namespace Pager

variable {m : Type → Type} [Monad m] {ps : PostShape.{0}} [WPMonad m ps] {σ α : Type} [Cursor m σ α]
  {idle : Assertion ps} {reading : σ → Assertion ps} {src : PageSource m σ α}
  {all seen rest : List α} {leftover : List α → Prop} {p : Pager σ}

/-- What the reader of a pager can ask for. -/
inductive Call where
  | next
  | mark (live : UInt64)
  | close

def Call.isNext : Call → Bool
  | .next => true
  | _ => false

/-- Carries out a call, which has a reply if it asks for a page. -/
def call (src : PageSource m σ α) (p : Pager σ) :
    Call → m (Option (Except Failure (List α)) × Pager σ)
  | .next => do
    let (reply, p) ← nextPage src p
    return (some reply, p)
  | .mark live => return (none, p.mark live)
  | .close => do
    let p ← p.close
    return (none, p)

/-- Carries out calls in turn, and collects the replies. -/
def run (src : PageSource m σ α) (p : Pager σ) :
    List Call → m (List (Except Failure (List α)) × Pager σ)
  | [] => return ([], p)
  | c :: calls => do
    let (reply, p) ← p.call src c
    let (replies, p) ← run src p calls
    return (reply.toList ++ replies, p)

/-- The items of the pages among some replies. -/
def pagesOf (replies : List (Except Failure (List α))) : List α :=
  replies.flatMap fun
    | .ok page => page
    | .error _ => []

theorem pagesOf_ok (page : List α) : pagesOf [.ok page] = page := List.append_nil page

theorem run_snoc [LawfulMonad m] (src : PageSource m σ α) (p : Pager σ) (calls : List Call) (c : Call) :
    run src p (calls ++ [c]) = do
      let (replies, p) ← run src p calls
      let (reply, p) ← p.call src c
      return (replies ++ reply.toList, p) := by
  induction calls generalizing p with
  | nil => simp [run]
  | cons first calls ih => simp [run, ih]

/-- What a call does once the reading has ended: reports are still counted. -/
def Call.report (p : Pager σ) : Call → Pager σ
  | .mark live => p.mark live
  | _ => p

theorem report_frame (p : Pager σ) (c : Call) :
    (c.report p).exhausted = p.exhausted ∧ (c.report p).current = p.current := by
  cases c <;> exact ⟨rfl, rfl⟩

/-- Once the reading has ended a page is empty, and nothing is opened, read or closed. -/
theorem call_exhausted [LawfulMonad m] (src : PageSource m σ α) (hended : p.exhausted = true)
    (hnone : p.current = none) (c : Call) :
    p.call src c = pure (if c.isNext then some (.ok []) else none, c.report p) := by
  cases c with
  | next => simp [call, nextPage, refresh, hended, hnone, Call.isNext, Call.report]
  | mark live => rfl
  | close =>
    have hsame : { p with exhausted := true, current := none } = p := by
      rw [← hended, ← hnone]
    simp only [call, Pager.close, closeCurrent, hnone, pure_bind]
    rw [hsame]
    rfl

/-- **The end is final.** -/
theorem run_exhausted [LawfulMonad m] (src : PageSource m σ α) (hended : p.exhausted = true)
    (hnone : p.current = none) (calls : List Call) :
    run src p calls =
      pure (List.replicate (calls.countP Call.isNext) (.ok []), calls.foldl Call.report p) := by
  induction calls generalizing p with
  | nil => rfl
  | cons c calls ih =>
    obtain ⟨hended', hnone'⟩ := report_frame p c
    rw [run, call_exhausted src hended hnone, pure_bind]
    dsimp only
    rw [ih (hended'.trans hended) (hnone'.trans hnone), pure_bind, List.countP_cons]
    cases c.isNext with
    | true => simp [List.replicate_succ]
    | false => simp

/-- What a call comes to: the pager moves on by the items of its reply. -/
structure Moved (src : PageSource m σ α) (all : List α) (leftover : List α → Prop)
    (reading : σ → Assertion ps) (seen rest : List α) (p : Pager σ) (c : Call)
    (reply : Option (Except Failure (List α))) (p' : Pager σ) : Prop where
  placed : ∃ rest', rest = pagesOf reply.toList ++ rest' ∧
    Placed src all leftover reading (seen ++ pagesOf reply.toList) rest' p'
  closed : p.exhausted = true ∨ c = .close → p'.exhausted = true
  emptied : reply = some (.ok []) → p'.exhausted = true ∨ p'.Stranded src
  asked : c = .next ↔ reply.isSome = true

/-- **What one call does.** -/
theorem call_placed (hsrc : src.Resumes idle reading all leftover)
    (h : Placed src all leftover reading seen rest p) {c : Call}
    (hclose : c = .close → ∀ rest, leftover rest) :
    ⦃around idle reading p.current⦄ (p.call src c)
    ⦃⇓ r => ⌜Moved src all leftover reading seen rest p c r.1 r.2⌝ ∧
      around idle reading r.2.current⦄ := by
  by_cases hended : p.exhausted = true
  · have hnone := (h.ended hended).1
    rw [call_exhausted src hended hnone]
    cases c with
    | next =>
      exact Hoare.pure ⟨⟨rest, rfl, h.stay⟩, fun _ => hended, fun _ => Or.inl hended,
        by simp [Call.isNext]⟩ .rfl
    | mark live =>
      exact Hoare.pure ⟨⟨rest, rfl, (h.mark live).stay⟩, fun _ => hended, by simp [Call.isNext],
        by simp [Call.isNext]⟩ .rfl
    | close =>
      exact Hoare.pure ⟨⟨rest, rfl, h.stay⟩, fun _ => hended, by simp [Call.isNext],
        by simp [Call.isNext]⟩ .rfl
  · cases c with
    | next =>
      unfold call
      refine Hoare.bind (nextPage_placed hsrc h) ?_
      rintro ⟨reply, p'⟩ hturned
      refine Hoare.pure ?_ .rfl
      cases reply with
      | error e => exact ⟨⟨rest, rfl, Placed.stay hturned⟩, by simp [hended], by simp, by simp⟩
      | ok page =>
        obtain ⟨rest', hrest, hplaced, hempty⟩ := hturned
        refine ⟨⟨rest', ?_, ?_⟩, by simp [hended], ?_, by simp⟩
        · dsimp only [Option.toList_some]
          rw [pagesOf_ok]
          exact hrest
        · dsimp only [Option.toList_some]
          rw [pagesOf_ok]
          exact hplaced
        · intro hreply
          exact hempty (Except.ok.inj (Option.some.inj hreply))
    | mark live =>
      exact Hoare.pure ⟨⟨rest, rfl, (h.mark live).stay⟩, by simp [hended], by simp, by simp⟩ .rfl
    | close =>
      unfold call Pager.close
      refine Hoare.bind (closeCurrent_spec (n := 0) (fun _ => hsrc.closes) { p with exhausted := true }) ?_
      rintro p' rfl
      have hplaced := h.end (hclose rfl rest)
      exact Hoare.pure ⟨⟨rest, rfl, hplaced.stay⟩, fun _ => rfl, by simp, by simp⟩ .rfl

/-- **What any number of calls do.** -/
theorem run_placed (hsrc : src.Resumes idle reading all leftover)
    (h : Placed src all leftover reading [] all p) (calls : List Call)
    (hclose : .close ∈ calls → ∀ rest, leftover rest) :
    ⦃around idle reading p.current⦄ (run src p calls)
    ⦃⇓ r => ⌜(∃ rest, Placed src all leftover reading (pagesOf r.1) rest r.2) ∧
      (.close ∈ calls → r.2.exhausted = true) ∧
      (calls.getLast? = some .next → r.1.getLast? = some (.ok []) →
        r.2.exhausted = true ∨ r.2.Stranded src)⌝ ∧
      around idle reading r.2.current⦄ := by
  -- from the end of the calls, since the last reply speaks of the pager after the last call
  induction calls using List.reverseRecOn with
  | nil => exact Hoare.pure ⟨⟨all, h⟩, by simp, by simp⟩ .rfl
  | append_singleton calls c ih =>
    rw [run_snoc]
    refine Hoare.bind (ih fun hmem => hclose (List.mem_append_left _ hmem)) ?_
    rintro ⟨replies, p⟩ ⟨⟨rest, hplaced⟩, hclosed, -⟩
    have hleftover : c = .close → ∀ rest, leftover rest := by
      rintro rfl
      exact hclose (by simp)
    refine Hoare.bind (call_placed hsrc hplaced hleftover) ?_
    rintro ⟨reply, p'⟩ hmoved
    refine Hoare.pure ⟨?_, ?_, ?_⟩ .rfl
    · obtain ⟨rest', -, hplaced'⟩ := hmoved.placed
      refine ⟨rest', ?_⟩
      have hpages : pagesOf (replies ++ reply.toList) = pagesOf replies ++ pagesOf reply.toList :=
        List.flatMap_append
      exact hpages.symm ▸ hplaced'
    · intro hmem
      rcases List.mem_append.1 hmem with hbefore | hnow
      · exact hmoved.closed (Or.inl (hclosed hbefore))
      · exact hmoved.closed (Or.inr (List.mem_singleton.1 hnow).symm)
    · intro hlast hreply
      have hnext : c = .next := by simpa using hlast
      obtain ⟨last, rfl⟩ := Option.isSome_iff_exists.1 (hmoved.asked.1 hnext)
      refine hmoved.emptied ?_
      simpa using hreply

/-- A pager at the start of its source. -/
theorem placed_start {firstSize max : UInt64} (hp : of? firstSize max = .ok p) :
    Placed src all leftover reading [] all p ∧ p.current = none := by
  obtain ⟨hfirst, rfl⟩ := eq_of_of? hp
  refine ⟨⟨rfl, hfirst, ?_, hfirst, rfl, rfl, ?_, ?_⟩, rfl⟩
  · dsimp only
    split
    · decide
    · assumption
  · intro c hc
    cases hc
  · intro hended
    cases hended

/-- What can be said of a pager after some calls, and of their replies. -/
structure Paged (src : PageSource m σ α) (all : List α) (calls : List Call)
    (replies : List (Except Failure (List α))) (p : Pager σ) : Prop where
  /-- Together the pages are a front of the source. -/
  gapless : pagesOf replies <+: all
  counted : p.returned = UInt64.ofNat (pagesOf replies).length
  closed : .close ∈ calls → p.exhausted = true
  /-- A page is empty at the end, or where a pager is stranded. -/
  emptied : calls.getLast? = some .next → replies.getLast? = some (.ok []) →
    p.exhausted = true ∨ p.Stranded src
  /-- From the end on pages are empty, and nothing is asked of the source. -/
  final : p.exhausted = true → ∀ later, run src p later =
    pure (List.replicate (later.countP Call.isNext) (.ok []), later.foldl Call.report p)

/-- **Pages leave no gap, and the end is final**, whatever fails. -/
theorem run_paged {firstSize max : UInt64} (hsrc : src.Resumes idle reading all fun _ => True)
    (hp : of? firstSize max = .ok p) (calls : List Call) :
    ⦃idle⦄ (run src p calls)
    ⦃⇓ r => ⌜Paged src all calls r.1 r.2⌝ ∧ around idle reading r.2.current⦄ := by
  obtain ⟨hplaced, hnone⟩ : Placed src all (fun _ => True) reading [] all p ∧ _ := placed_start hp
  have hrun := run_placed hsrc hplaced calls fun _ _ => trivial
  rw [hnone] at hrun
  refine Hoare.mono hrun ?_
  rintro ⟨replies, p'⟩ ⟨⟨rest, hplaced'⟩, hclosed, hemptied⟩
  refine ⟨⟨rest, hplaced'.split.symm⟩, hplaced'.count, hclosed, hemptied, ?_⟩
  intro hended later
  exact run_exhausted src hended (hplaced'.ended hended).1 later

/-- Numbers of which the second open fails and every cursor breaks down. -/
theorem run_paged_numbers :
    let s : NumberSource := { length := 9, failingOpens := [2], cursorLimit := some 3 }
    let p : Pager NumberCursor := { firstSize := 2, max := 8, lastSize := 2 }
    of? 2 8 = .ok p ∧ ∀ calls,
      ⦃⌜True⌝⦄ (run s.pages p calls) ⦃⇓ r => ⌜Paged s.pages (List.range 9) calls r.1 r.2⌝⦄ := by
  intro s p
  have hsrc : s.pages.Resumes ⌜True⌝ (fun _ => ⌜True⌝) (List.range 9) fun _ => True :=
    (s.pages_resumes rfl (by decide)).mono fun _ _ => trivial
  have hp : of? 2 8 = .ok p := rfl
  exact ⟨hp, fun calls => Hoare.result (run_paged hsrc hp calls)⟩

/-- **An empty page means the end**, unless the pager is stranded: as long as it is not closed, what
was returned by then is the whole source. -/
theorem run_ends {firstSize max : UInt64} (hsrc : src.Resumes idle reading all (· = []))
    (hp : of? firstSize max = .ok p) (calls : List Call) (hopen : .close ∉ calls) :
    ⦃idle⦄ (run src p (calls ++ [.next]))
    ⦃⇓ r => ⌜r.1.getLast? = some (.ok []) → pagesOf r.1 = all ∨ r.2.Stranded src⌝ ∧
      around idle reading r.2.current⦄ := by
  obtain ⟨hplaced, hnone⟩ : Placed src all (· = []) reading [] all p ∧ _ := placed_start hp
  have hrun := run_placed hsrc hplaced (calls ++ [.next]) fun hmem => by simp [hopen] at hmem
  rw [hnone] at hrun
  refine Hoare.mono hrun ?_
  rintro ⟨replies, p'⟩ ⟨⟨rest, hplaced'⟩, -, hemptied⟩ hlast
  rcases hemptied (by simp) hlast with hended | hstranded
  · obtain ⟨-, rfl⟩ := hplaced'.ended hended
    have hall := hplaced'.split
    rw [List.append_nil] at hall
    exact Or.inl hall.symm
  · exact Or.inr hstranded

/-- Pages of two numbers, without a fault. -/
theorem run_ends_numbers :
    let s : NumberSource := { length := 3 }
    let p : Pager NumberCursor := { firstSize := 2, max := 8, lastSize := 2 }
    of? 2 8 = .ok p ∧
      ⦃⌜True⌝⦄ (run s.pages p ([.next, .mark 1, .next] ++ [.next]))
      ⦃⇓ r => ⌜r.1.getLast? = some (.ok []) →
        pagesOf r.1 = List.range 3 ∨ r.2.Stranded s.pages⌝⦄ := by
  intro s p
  have hsrc := s.pages_resumes rfl (by decide)
  have hp : of? 2 8 = .ok p := rfl
  exact ⟨hp, Hoare.result (run_ends hsrc hp [.next, .mark 1, .next] (by simp))⟩

/-- The second open fails. With the report after it the best size is the last one again, so no other
open is tried, and a page is empty although only two of five numbers were returned. -/
theorem run_stranded :
    let s : NumberSource := { length := 5, failingOpens := [2] }
    let p : Pager NumberCursor := { firstSize := 2, max := 8, lastSize := 2 }
    s.pages.Resumes ⌜True⌝ (fun _ => ⌜True⌝) (List.range 5) (· = []) ∧ of? 2 8 = .ok p ∧
      ((run s.pages p [.next, .mark 0, .next, .mark 2, .next]).run {}).1.1 =
        [.ok [0, 1], .error (.replicaCall "open"), .ok []] := by
  intro s p
  exact ⟨s.pages_resumes rfl (by decide), rfl, by decide +kernel⟩

end Pager

end QuorumStore
