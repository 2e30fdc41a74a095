import QuorumStore.Proofs.Scan.Sizes

/-!
# Counters of pages that do not overflow

A pager adds up the rows it returned and those reported to be live, and doubles the size of the last page
opened to compare it with the best one. The reader may report any number of rows. In a modest run it is
these reports alone that can leave the 64-bit numbers.

* `Pager.Call.Exact`: the numbers a call reckons with are 64-bit numbers.
* `Pager.EachExact`: so are those of every one of some calls.
* `Pager.call_exact_iff`: for a call of a modest run that speaks of reports only.
* `Pager.run_exact`: **calls reckon exactly if and only if the reports add up to a 64-bit number.**
* `Pager.run_overreported`: three reports that add up to nothing.
-/

namespace QuorumStore

open CursorLog

namespace Pager

open Watching

variable {α : Type} {src : PageSource (Watching PageRequest α) (Watched PageRequest α) α}
  {p q : Pager (Watched PageRequest α)} {log log' events : CursorLog PageRequest α}
  {first largest : UInt64} {rows more live : Nat} {replies : List (Except Failure (List α))}
  {reply : Option (Except Failure (List α))}

/-- The sums that a call makes of counters are 64-bit numbers, and so is the double of the last size
where it is compared with the best one. -/
def Call.Exact (src : PageSource (Watching PageRequest α) (Watched PageRequest α) α)
    (p : Pager (Watched PageRequest α)) (reply : Option (Except Failure (List α))) : Call → Prop
  | .next => p.DoubleFits src ∧ p.PageFits (pagesOf reply.toList)
  | .mark live => p.ReportFits live
  | .close => True

/-- Each of some calls reckons exactly. -/
def EachExact (src : PageSource (Watching PageRequest α) (Watched PageRequest α) α)
    (p : Pager (Watched PageRequest α)) (calls : List Call) : Prop :=
  EachAfter (fun before c =>
    let r := (run src p before).run []
    c.Exact src r.1.2 ((call src r.1.2 c).run r.2).1.1) calls

/-- A modest run was so before its last events. -/
theorem Modest.before (h : Modest largest (rows + more) (log ++ events)) : Modest largest rows log :=
  ⟨by have hrows := h.1; omega, h.2.imp_left Faultless.of_append⟩

/-- In a modest run only a report can make a call inexact. -/
theorem call_exact_iff (h : Reckoned first largest rows live p log)
    (hmodest : Modest largest (rows + (pagesOf reply.toList).length) (log ++ events))
    (hlive : live < UInt64.size) (c : Call) :
    c.Exact src p reply ↔ live + c.live < UInt64.size := by
  cases c with
  | next =>
    have hreturned : p.returned.toNat = rows := by
      rw [h.counted.returned, UInt64.toNat_ofNat_of_lt' (by have hrows := hmodest.1; omega)]
    refine ⟨fun _ => hlive, fun _ => ⟨fun hopen token htoken _ => ?_, ?_⟩⟩
    · exact h.two_mul_lastSize_lt hmodest.before (by simp [Option.mem_def.1 htoken]) hopen
    · have hrows := hmodest.1
      unfold PageFits
      omega
  | mark more =>
    have hnotDeleted : p.notDeleted.toNat = live := by
      rw [h.counted.notDeleted, UInt64.toNat_ofNat_of_lt' hlive]
    unfold Call.Exact Call.live ReportFits
    rw [hnotDeleted]
  | close => exact ⟨fun _ => hlive, fun _ => trivial⟩

/-- A call after others reckons exactly if it does so where they have left the pager. -/
theorem eachExact_snoc {calls : List Call} {c : Call}
    {r : Option (Except Failure (List α)) × Pager (Watched PageRequest α)}
    (hrun : (run src p calls).run [] = ((replies, q), log))
    (hcall : (call src q c).run log = (r, log')) :
    EachExact src p (calls ++ [c]) ↔ EachExact src p calls ∧ c.Exact src q r.1 := by
  unfold EachExact
  rw [eachAfter_snoc]
  simp only [hrun, hcall]

/-- In a modest run only reports can make calls inexact. -/
theorem eachExact_iff (b : Behaviour PageRequest α) (hasNext : Bytes → Bool)
    (tokenOf : List α → Bytes) (hp : of? first largest = .ok p) (calls : List Call)
    (hrun : (run (b.pageSource Prod.mk hasNext tokenOf) p calls).run [] = ((replies, q), log))
    (hmodest : Modest largest (pagesOf replies).length log) :
    EachExact (b.pageSource Prod.mk hasNext tokenOf) p calls ↔ reported calls < UInt64.size := by
  -- from the end of the calls, since the counters speak of all of them
  induction calls using List.reverseRecOn generalizing replies q log with
  | nil => exact ⟨fun _ => by decide, fun _ => eachAfter_nil _⟩
  | append_singleton calls c ih =>
    obtain ⟨before, p', log', hbefore, hreckoned⟩ := run_reckoned b hasNext tokenOf hp calls
    obtain ⟨reply, q', events, hcall, -, -⟩ := call_reckoned b hasNext tokenOf hreckoned c
    cases (run_then_call hbefore hcall).symm.trans hrun
    rw [length_pagesOf_append] at hmodest
    have hcalls := ih hbefore hmodest.before
    have hc : reported calls < UInt64.size → (c.Exact (b.pageSource Prod.mk hasNext tokenOf) p' reply ↔
        reported calls + c.live < UInt64.size) := fun hlive => call_exact_iff hreckoned hmodest hlive c
    rw [eachExact_snoc hbefore hcall, hcalls, reported_snoc]
    constructor
    · rintro ⟨hlive, hexact⟩
      exact (hc hlive).1 hexact
    · intro hsum
      have hlive : reported calls < UInt64.size := Nat.lt_of_le_of_lt (Nat.le_add_right _ _) hsum
      exact ⟨hlive, (hc hlive).2 hsum⟩

/-- **Calls reckon exactly if and only if the reports add up to a 64-bit number**, and exactly then the
counter of live rows is their sum. The rows returned are counted exactly in any case. -/
theorem run_exact (b : Behaviour PageRequest α) (hasNext : Bytes → Bool) (tokenOf : List α → Bytes)
    (hp : of? first largest = .ok p) (calls : List Call)
    (hrun : (run (b.pageSource Prod.mk hasNext tokenOf) p calls).run [] = ((replies, q), log))
    (hmodest : Modest largest (pagesOf replies).length log) :
    (EachExact (b.pageSource Prod.mk hasNext tokenOf) p calls ↔ reported calls < UInt64.size) ∧
      q.returned.toNat = (pagesOf replies).length ∧
      (q.notDeleted.toNat = reported calls ↔ reported calls < UInt64.size) := by
  obtain ⟨replies', q', log', hrun', hcounted, -⟩ := run_reckoned b hasNext tokenOf hp calls
  cases hrun'.symm.trans hrun
  refine ⟨eachExact_iff b hasNext tokenOf hp calls hrun hmodest, ?_, fun hexact => ?_, fun hlive => ?_⟩
  · rw [hcounted.returned, UInt64.toNat_ofNat_of_lt' (by have hrows := hmodest.1; omega)]
  · exact hexact ▸ UInt64.toNat_lt _
  · rw [hcounted.notDeleted, UInt64.toNat_ofNat_of_lt' hlive]

/-- More rows are reported live than were returned, which does no harm. -/
theorem run_exact_reluctantZeros :
    let src := reluctantZeros.pageSource Prod.mk (fun _ => true) (fun _ => [])
    let p : Pager (Watched PageRequest Nat) := { firstSize := 2, max := 8, lastSize := 2 }
    let calls : List Call := [.next, .next, .mark 7, .next]
    of? 2 8 = .ok p ∧ ∃ replies q log, (run src p calls).run [] = ((replies, q), log) ∧
      Modest 8 (pagesOf replies).length log ∧
      (EachExact src p calls ↔ reported calls < UInt64.size) ∧
      q.returned.toNat = (pagesOf replies).length ∧
      (q.notDeleted.toNat = reported calls ↔ reported calls < UInt64.size) := by
  intro src p calls
  have hp : of? 2 8 = .ok p := rfl
  have hrows : (pagesOf ((run src p calls).run []).1.1).length = 2 := by decide +kernel
  rcases hrun : (run src p calls).run [] with ⟨⟨replies, q⟩, log⟩
  rw [hrun] at hrows
  have hmodest : Modest 8 (pagesOf replies).length log := by
    rw [hrows]
    exact ⟨by decide, Or.inr (by decide)⟩
  exact ⟨hp, replies, q, log, rfl, hmodest,
    run_exact reluctantZeros (fun _ => true) (fun _ => []) hp calls hrun hmodest⟩

/-- Three reports, each of them a signed 64-bit number, add up to nothing. -/
theorem run_overreported :
    let src := reluctantZeros.pageSource Prod.mk (fun _ => true) (fun _ => [])
    let p : Pager (Watched PageRequest Nat) := { firstSize := 2, max := 8, lastSize := 2 }
    let twice : List Call := [.next, .next, .mark 9223372036854775807, .mark 9223372036854775807]
    let calls := twice ++ [.mark 2]
    of? 2 8 = .ok p ∧ ¬EachExact src p calls ∧ reported calls = 2 ^ 64 ∧
      ((run src p calls).run []).1.2.notDeleted = 0 := by
  intro src p twice calls
  have hlast : ((run src p calls).run []).1.2.notDeleted = 0 := by decide +kernel
  refine ⟨rfl, fun hexact => ?_, by decide +kernel, hlast⟩
  have htwice : ((run src p twice).run []).1.2.notDeleted = 18446744073709551614 := by decide +kernel
  have hsum : ((run src p twice).run []).1.2.ReportFits 2 := hexact twice (.mark 2) [] rfl
  unfold ReportFits at hsum
  rw [htwice] at hsum
  exact absurd hsum (by decide +kernel)

end Pager

end QuorumStore
