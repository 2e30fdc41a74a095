import QuorumStore.Proofs.RowRange
import QuorumStore.Proofs.Scan.Pager
import QuorumStore.Scan.LiveRows
import QuorumStore.Service

/-!
# Live-row scans lose and repeat nothing

A live-row scan goes through a range in pages of changing size and leaves out the rows that are
deleted. Opening a page may fail. Whoever then simply asks again gets every live row once.

* `RowRange.contains_successor`: where a range goes on behind a row.
* `Steady`: range reads of a table that does not change.
* `LiveScan.pageSource_lists`: its pages list the rows of the range.
* `LiveScan.nextBatch_spec`: what one call comes to.
* `LiveScan.insist`: calls until the range has ended, again after each failure.
* `LiveScan.insist_lossless`: **the batches are not empty, and together they are the live rows of the
  range, in order and once each.**
-/

namespace QuorumStore

open Std Std.Do

namespace RowRange

variable {range : RowRange} {row key : Bytes}

/-- Where a range goes on behind a row, it contains the successor of the row. -/
theorem contains_successor (hrow : range.contains row = true) (hkey : range.contains key = true)
    (hlt : row < key) : range.contains row.successor = true := by
  rw [contains_iff] at hrow hkey ⊢
  have hbehind : row < row.successor := Bytes.successor_le_iff.1 (List.le_refl _)
  refine ⟨List.le_trans hrow.1 (List.le_of_lt hbehind), hkey.2.imp_right fun hstop => ?_⟩
  exact List.lt_of_le_of_lt (Bytes.successor_le_iff.2 hlt) hstop

end RowRange

theorem LiveScan.tokenOf_concat {m : Type → Type} {σ : Type}
    {openRange : RowRange → m (Except Failure σ)} {range : RowRange} (seen : List (Row Value))
    (last : Row Value) : (pageSource openRange range).tokenOf (seen ++ [last]) = last.key := by
  simp [pageSource]

variable {m : Type → Type} [Monad m] {ps : PostShape.{0}} [WPMonad m ps] {σ : Type}
  [Cursor m σ (Row Value)]

/-- Range reads of some columns of a table that does not change. Each open fails or gives a cursor
over the rows of the range. -/
structure Steady (openRange : RowRange → m (Except Failure σ)) (columns : ColumnFilter)
    (rows : List (Row Value)) (idle : Nat → Assertion ps) (reading : Nat → σ → Assertion ps) :
    Prop where
  ascending : rows.Pairwise fun a b => a.key < b.key
  opens : ∀ n range, range.columns = columns →
    ⦃idle n⦄ (openRange range)
    ⦃⇓ result => ⌜∀ c, result = .ok c →
      Cursor.Yields m (reading n) (rows.filter fun row => range.contains row.key) c⌝ ∧
      opened idle reading n result⦄
  closes : ∀ n (c : σ), ⦃reading n c⦄ (Cursor.close c : m σ) ⦃⇓ _ => idle n⦄

/-- The rows of a range. -/
def rowsIn (rows : List (Row Value)) (range : RowRange) : List (Row Value) :=
  rows.filter fun row => range.contains row.key

section Rows

variable {rows seen rest : List (Row Value)} {range : RowRange} {last : Row Value}

/-- The rows behind a row of a range. -/
theorem rowsIn_resumeAfter (hrows : rows.Pairwise fun a b => a.key < b.key)
    (hsplit : rowsIn rows range = seen ++ [last] ++ rest) :
    rowsIn rows (range.resumeAfter last.key) = rest := by
  have hin : ∀ row ∈ rowsIn rows range, range.contains row.key = true := fun row hrow =>
    (List.mem_filter.1 hrow).2
  have hlast : range.contains last.key = true := hin last (by simp [hsplit])
  -- first the rows of the range, then those behind the row
  have hbehind : rowsIn rows (range.resumeAfter last.key) =
      (rowsIn rows range).filter fun row => decide (last.key < row.key) := by
    unfold rowsIn
    rw [List.filter_filter]
    refine List.filter_congr fun row _ => ?_
    rw [Bool.eq_iff_iff, RowRange.contains_resumeAfter (RowRange.contains_iff.1 hlast).1,
      Bool.and_eq_true, decide_eq_true_eq, and_comm]
  have hascending : (rowsIn rows range).Pairwise fun a b => a.key < b.key := hrows.filter _
  rw [hsplit] at hascending hbehind
  obtain ⟨hseen, -, hcross⟩ := List.pairwise_append.1 hascending
  obtain ⟨-, -, hbefore⟩ := List.pairwise_append.1 hseen
  have hpast : (seen ++ [last]).filter (fun row => decide (last.key < row.key)) = [] := by
    refine List.filter_eq_nil_iff.2 fun row hrow => ?_
    rw [decide_eq_true_eq]
    rcases List.mem_append.1 hrow with hrow | hrow
    · intro hlt
      have hgt := hbefore row hrow last (List.mem_singleton_self last)
      exact List.lt_irrefl _ (List.lt_trans hlt hgt)
    · rw [List.mem_singleton.1 hrow]
      exact List.lt_irrefl _
  have hnext : rest.filter (fun row => decide (last.key < row.key)) = rest := by
    refine List.filter_eq_self.2 fun row hrow => decide_eq_true ?_
    exact hcross last (by simp) row hrow
  rw [hbehind, List.filter_append, hpast, hnext, List.nil_append]

end Rows

namespace LiveScan

variable {openRange : RowRange → m (Except Failure σ)} {rows seen rest : List (Row Value)}
  {idle : Nat → Assertion ps} {reading : Nat → σ → Assertion ps} {range : RowRange}

/-- **The pages of a steady range** list its rows. -/
theorem pageSource_lists (h : Steady openRange range.columns rows idle reading) :
    (pageSource openRange range).Lists idle reading (rowsIn rows range) := by
  refine ⟨fun n size seen rest hsplit => ?_, h.closes, fun seen page hne => ?_,
    fun seen rest hsplit hne hnext => ?_⟩
  · rcases List.eq_nil_or_concat seen with rfl | ⟨front, last, rfl⟩
    · have hopens := h.opens n (range.withBatchHint size) rfl
      rw [List.nil_append] at hsplit
      rw [← hsplit]
      exact hopens
    · rw [List.concat_eq_append] at hsplit ⊢
      have htoken : (pageSource openRange range).tokenAfter (front ++ [last]) = some last.key := by
        unfold PageSource.tokenAfter
        rw [tokenOf_concat]
        simp
      have hopens := h.opens n ((range.resumeAfter last.key).withBatchHint size) rfl
      have hrest := rowsIn_resumeAfter h.ascending hsplit
      rw [htoken, ← hrest]
      exact hopens
  · obtain ⟨front, last, rfl⟩ := (List.eq_nil_or_concat page).resolve_left hne
    rw [List.concat_eq_append, ← List.append_assoc, tokenOf_concat, tokenOf_concat]
  · obtain ⟨front, last, rfl⟩ := (List.eq_nil_or_concat seen).resolve_left hne
    rw [List.concat_eq_append] at hsplit hnext
    rw [tokenOf_concat] at hnext
    -- a row behind the token would leave room for the token's successor
    refine List.eq_nil_iff_forall_not_mem.2 fun row hrow => ?_
    rw [← rowsIn_resumeAfter h.ascending hsplit] at hrow
    have hlast : last ∈ rowsIn rows range := by
      rw [hsplit]
      simp
    have hlast := (List.mem_filter.1 hlast).2
    obtain ⟨hin, hlt⟩ := (RowRange.contains_resumeAfter (RowRange.contains_iff.1 hlast).1).1
      (List.mem_filter.1 hrow).2
    have hnone : range.contains last.key.successor = false := hnext
    rw [RowRange.contains_successor hlast hin hlt] at hnone
    cases hnone

/-- How the answer to a call fits the live rows among those it read and the rows it left. -/
def Answers (live left : List (Row Value)) : Except Failure (Search (List (Row Value))) → Prop
  | .error _ => live = []
  | .ok (.found page) => page = live ∧ page ≠ []
  | .ok .exhausted => live = [] ∧ left = []
  | .ok .interrupted => False

/-- What a call comes to: it reads some of the rows that are left, and answers with the live ones
among them. It is never cut short. -/
def Advances (openRange : RowRange → m (Except Failure σ)) (range : RowRange)
    (rows : List (Row Value)) (reading : Nat → σ → Assertion ps) (n : Nat)
    (seen rest : List (Row Value))
    (r : Except Failure (Search (List (Row Value))) × LiveScan σ) : Prop :=
  ∃ read left, rest = read ++ left ∧ r.2.range = range ∧
    Pager.Stands (pageSource openRange range) (rowsIn rows range) (reading (n + failures r.1))
      (seen ++ read) left r.2.pages ∧
    Answers (read.filter Row.isLive) left r.1

/-- Pages without a live row may come before. -/
theorem Advances.prepend {n : Nat} {dead : List (Row Value)}
    {r : Except Failure (Search (List (Row Value))) × LiveScan σ}
    (hdead : dead.filter Row.isLive = [])
    (h : Advances openRange range rows reading n (seen ++ dead) rest r) :
    Advances openRange range rows reading n seen (dead ++ rest) r := by
  obtain ⟨read, left, rfl, hrange, hstands, hanswers⟩ := h
  refine ⟨dead ++ read, left, by rw [List.append_assoc], hrange, ?_, ?_⟩
  · rw [← List.append_assoc]
    exact hstands
  · rw [List.filter_append, hdead, List.nil_append]
    exact hanswers

/-- **One call** answers with the live rows of the first page that has any. -/
theorem nextBatch_spec {n limit : Nat} {s : LiveScan σ}
    (h : Steady openRange s.range.columns rows idle reading)
    (hstands : Pager.Stands (pageSource openRange s.range) (rowsIn rows s.range) (reading n) seen
      rest s.pages) (hlimit : rest.length < limit) :
    ⦃held idle reading n s.pages.current⦄ (s.nextBatch openRange limit)
    ⦃⇓ r => ⌜Advances openRange s.range rows reading n seen rest r⌝ ∧
      held idle reading (n + failures r.1) r.2.pages.current⦄ := by
  induction limit generalizing s seen rest with
  | zero => exact absurd hlimit (Nat.not_lt_zero _)
  | succ limit ih =>
    unfold nextBatch
    refine Hoare.bind (Pager.nextPage_spec (pageSource_lists h) hstands) ?_
    rintro ⟨result, pages⟩ hturns
    cases result with
    | error e =>
      have hadvances : Advances openRange s.range rows reading n seen rest
          (.error e, { s with pages }) := by
        refine ⟨[], rest, rfl, rfl, ?_, rfl⟩
        rw [List.append_nil]
        exact hturns
      exact Hoare.pure hadvances .rfl
    | ok page =>
      obtain ⟨left, rfl, hempty, hstands', hready⟩ := hturns
      cases page with
      | nil =>
        have hadvances : Advances openRange s.range rows reading n seen ([] ++ left)
            (.ok .exhausted, { s with pages }) :=
          ⟨[], left, rfl, rfl, hstands', rfl, hempty rfl⟩
        exact Hoare.pure hadvances .rfl
      | cons row page =>
        dsimp only
        have hmarked := hstands'.mark hready
          (UInt64.ofNat ((row :: page).filter Row.isLive).length)
        by_cases hdead : (row :: page).filter Row.isLive = []
        · -- a page without live rows uses up some rows, so the others fit the limit
          rw [if_pos (by rw [hdead]; rfl)]
          have hshorter : left.length < limit := by
            simp only [List.length_append, List.length_cons] at hlimit
            omega
          refine Hoare.mono (ih (s := { s with pages := pages.mark _ }) h hmarked hshorter) ?_
          exact fun r hr => Advances.prepend hdead hr
        · rw [if_neg (by simpa using hdead)]
          have hadvances : Advances openRange s.range rows reading n seen ((row :: page) ++ left)
              (.ok (.found ((row :: page).filter Row.isLive)),
                { s with pages := pages.mark (UInt64.ofNat
                  ((row :: page).filter Row.isLive).length) }) :=
            ⟨row :: page, left, rfl, rfl, hmarked, rfl, hdead⟩
          exact Hoare.pure hadvances .rfl

/-- Up to so many calls for the next batch, again after each failure, until the range has ended. -/
def insist (openRange : RowRange → m (Except Failure σ)) (pageLimit : Nat) :
    Nat → LiveScan σ → m (List (Except Failure (Search (List (Row Value)))) × LiveScan σ)
  | 0, s => return ([], s)
  | calls + 1, s => do
    match ← s.nextBatch openRange pageLimit with
    | (.ok .exhausted, s) => return ([.ok .exhausted], s)
    | (result, s) =>
      let (results, s) ← insist openRange pageLimit calls s
      return (result :: results, s)

/-- The rows of an answer. -/
def batchOf : Except Failure (Search (List (Row Value))) → List (Row Value)
  | .ok (.found page) => page
  | _ => []

/-- The answers to at most so many calls lose and repeat none of the live rows. -/
structure Lossless (live : List (Row Value)) (calls : Nat)
    (results : List (Except Failure (Search (List (Row Value))))) : Prop where
  /-- No call is cut short. -/
  answered : .ok .interrupted ∉ results
  /-- No batch is empty. -/
  nonempty : ∀ page, .ok (.found page) ∈ results → page ≠ []
  /-- The batches together begin the live rows. -/
  inOrder : results.flatMap batchOf <+: live
  /-- At the end they are all of them. -/
  complete : .ok .exhausted ∈ results → results.flatMap batchOf = live
  /-- Each call that does not fail gets further, so the end is reached. -/
  ends : (results.map failures).sum + live.length < calls → .ok .exhausted ∈ results

namespace Lossless

variable {live page : List (Row Value)} {calls : Nat}
  {results : List (Except Failure (Search (List (Row Value))))}

theorem failed (h : Lossless live calls results) (e : Failure) :
    Lossless live (calls + 1) (.error e :: results) := by
  refine ⟨by simpa using h.answered, fun page hpage => ?_, h.inOrder, fun hend => ?_, fun hcalls => ?_⟩
  · exact h.nonempty page (by simpa using hpage)
  · exact h.complete (by simpa using hend)
  · have hsum : (List.map failures (.error e :: results)).sum = 1 + (results.map failures).sum := by
      simp [failures]
    exact List.mem_cons_of_mem _ (h.ends (by omega))

theorem found (h : Lossless live calls results) (hpage : page ≠ []) :
    Lossless (page ++ live) (calls + 1) (.ok (.found page) :: results) := by
  refine ⟨by simpa using h.answered, fun other hother => ?_, ?_, fun hend => ?_, fun hcalls => ?_⟩
  · rcases List.mem_cons.1 hother with heq | hother
    · cases heq
      exact hpage
    · exact h.nonempty other hother
  · exact (List.prefix_append_right_inj page).2 h.inOrder
  · have hrest := h.complete (by simpa using hend)
    rw [List.flatMap_cons, hrest]
    rfl
  · have hpos := List.length_pos_of_ne_nil hpage
    have hsum : (List.map failures (.ok (.found page) :: results)).sum =
        (results.map failures).sum := by
      simp [failures]
    rw [List.length_append] at hcalls
    exact List.mem_cons_of_mem _ (h.ends (by omega))

theorem exhausted : Lossless [] (calls + 1) [.ok .exhausted] :=
  ⟨by simp, by simp, List.prefix_refl _, fun _ => rfl, fun _ => List.mem_cons_self⟩

end Lossless

/-- **Calls until the end** from where a scan stands: the answers are the live rows that are left. -/
theorem insist_spec {n limit : Nat} {s : LiveScan σ}
    (h : Steady openRange s.range.columns rows idle reading)
    (hstands : Pager.Stands (pageSource openRange s.range) (rowsIn rows s.range) (reading n) seen
      rest s.pages) (hlimit : rest.length < limit) (calls : Nat) :
    ⦃held idle reading n s.pages.current⦄ (s.insist openRange limit calls)
    ⦃⇓ r => ⌜Lossless (rest.filter Row.isLive) calls r.1⌝ ∧
      held idle reading (n + (r.1.map failures).sum) r.2.pages.current⦄ := by
  induction calls generalizing n s seen rest with
  | zero =>
    refine Hoare.pure ⟨by simp, by simp, List.nil_prefix, by simp, ?_⟩ .rfl
    exact fun hcalls => absurd hcalls (Nat.not_lt_zero _)
  | succ calls ih =>
    unfold insist
    refine Hoare.bind (nextBatch_spec h hstands hlimit) ?_
    rintro ⟨result, s'⟩ ⟨read, left, rfl, hrange, hstands', hanswers⟩
    have h' : Steady openRange s'.range.columns rows idle reading := by
      rw [hrange]
      exact h
    have hstands'' := hstands'
    rw [← hrange] at hstands''
    have hshorter : left.length < limit := by
      rw [List.length_append] at hlimit
      omega
    rw [List.filter_append]
    match result, hanswers with
    | .error e, hlive =>
      have hlive : read.filter Row.isLive = [] := hlive
      refine Hoare.bind (ih h' hstands'' hshorter) fun ⟨results, s''⟩ hresults => ?_
      rw [hlive]
      refine Hoare.pure (hresults.failed e) ?_
      rw [List.map_cons, List.sum_cons, ← Nat.add_assoc]
    | .ok (.found page), ⟨hpage, hne⟩ =>
      refine Hoare.bind (ih h' hstands'' hshorter) fun ⟨results, s''⟩ hresults => ?_
      rw [← hpage]
      refine Hoare.pure (hresults.found hne) ?_
      rw [List.map_cons, List.sum_cons, ← Nat.add_assoc]
    | .ok .exhausted, ⟨hlive, hleft⟩ =>
      rw [hlive, hleft]
      exact Hoare.pure Lossless.exhausted .rfl

end LiveScan

section Service

variable {κ : Type → Type} [Cursor m (κ Value) (Row Value)] {s : Service m κ} {table : TableName}
  {t : Timestamp} {range : RowRange} {rows : List (Row Value)} {idle : Nat → Assertion ps}
  {reading : Nat → κ Value → Assertion ps}

/-- A whole range of a steady table, if its open succeeds. -/
theorem Steady.readRange {n limit : Nat}
    (h : Steady (fun r => s.openRange .latest table r t) range.columns rows idle reading)
    (hlimit : (rowsIn rows range).length < limit) :
    ⦃idle n⦄ (s.readRange limit .latest table range t)
    ⦃⇓ result => ⌜∀ found, result = .ok found → found = rowsIn rows range⌝ ∧
      idle (n + failures result)⦄ := by
  unfold Service.readRange
  refine Hoare.bind (h.opens n range rfl) fun result hresult => ?_
  cases result with
  | error e => exact Hoare.pure (fun found hfound => by cases hfound) .rfl
  | ok c =>
    refine Hoare.bind (Cursor.collect_spec (hresult c rfl) (h.closes n) hlimit) ?_
    rintro ⟨result, c'⟩ rfl
    refine Hoare.pure ?_ .rfl
    rintro found hfound
    cases hfound
    rfl

/-- **A live-row scan loses and repeats nothing**, whatever sizes its pages have and whichever opens
fail. Called until the range has ended, and again after each failure, it answers with batches that
are not empty and together are the live rows of the range, in order and once each. The failed calls
are as many as the failed opens, and a call always comes to an answer. -/
theorem LiveScan.insist_lossless
    (h : Steady (fun r => s.openRange .latest table r t) range.columns rows idle reading)
    {start max : UInt64} (hstart : 1 ≤ start) :
    ∃ pages, Pager.of? start max = .ok pages ∧
      (∀ n limit, (rowsIn rows range).length < limit →
        ⦃idle n⦄ (s.readRange limit .latest table range t)
        ⦃⇓ result => ⌜∀ found, result = .ok found → found = rowsIn rows range⌝ ∧
          idle (n + failures result)⦄) ∧
      ∀ n limit calls, (rowsIn rows range).length < limit →
        ⦃idle n⦄
        (LiveScan.insist (fun r => s.openRange .latest table r t) limit calls ⟨range, pages⟩)
        ⦃⇓ r => ⌜Lossless ((rowsIn rows range).filter Row.isLive) calls r.1⌝ ∧
          held idle reading (n + (r.1.map failures).sum) r.2.pages.current⦄ := by
  have hne : start ≠ 0 := by
    rintro rfl
    exact absurd hstart (by decide)
  let pages : Pager (κ Value) :=
    { firstSize := start, max := if max = 0 then 1 else max, lastSize := start }
  have hbound : pages.max ≠ 0 := by
    show (if max = 0 then 1 else max) ≠ 0
    split
    · decide
    · assumption
  refine ⟨pages, if_neg hne, fun n limit hlimit => h.readRange hlimit, ?_⟩
  intro n limit calls hlimit
  have hstands : Pager.Stands (LiveScan.pageSource (fun r => s.openRange .latest table r t) range)
      (rowsIn rows range) (reading n) [] (rowsIn rows range) pages := by
    refine ⟨rfl, hne, hbound, hne, rfl, fun c hc => ?_, fun hended => ?_, fun _ _ token htoken => ?_⟩
    · cases hc
    · cases hended
    · cases htoken
  exact LiveScan.insist_spec h hstands hlimit calls

end Service

section Flaky

/-- A live row, a deleted one and another live one. -/
def flakyRows : List (Row Value) :=
  [⟨[1], (∅ : ExtTreeMap Bytes Value).insert [0] ⟨[7], 3⟩⟩,
    ⟨[2], (∅ : ExtTreeMap Bytes Value).insert [0] ⟨[], 4⟩⟩,
    ⟨[3], (∅ : ExtTreeMap Bytes Value).insert [0] ⟨[9], 5⟩⟩]

/-- The rows of a range, if the latest values are asked for. -/
def flakyItems {τ : Type} : Projection τ → RowRange → List (Row τ)
  | .latest, range => rowsIn flakyRows range
  | _, _ => []

/-- A service that counts its opens, of which the first fails. -/
def flaky : Service (StateM Nat) fun τ => Feed (Row τ) where
  run _ := return .error .timeout
  openRange projection _ range _ := do
    let opens ← get
    set (opens + 1)
    return if opens = 0 then .error .timeout else .ok { items := flakyItems projection range }

/-- At most the first open has failed. -/
def flakyIdle (n : Nat) : Assertion (.arg Nat .pure) := fun opens => ⌜n = min opens 1⌝

theorem flaky_steady : Steady (fun r => flaky.openRange .latest "t" r 9) RowRange.all.columns
    flakyRows flakyIdle fun n _ => flakyIdle n := by
  refine ⟨by decide, fun n range _ => ?_, fun n c => Triple.pure _ .rfl⟩
  intro opens hopens
  have hopens : n = min opens 1 := hopens
  cases opens with
  | zero =>
    obtain rfl : n = 0 := hopens
    refine ⟨fun c hc => ?_, rfl⟩
    cases hc
  | succ opens =>
    obtain rfl : n = 1 := by omega
    have hidle : 1 = min (opens + 1 + 1) 1 := by omega
    refine ⟨fun c hc => ?_, hidle⟩
    cases hc
    exact Feed.yields _

/-- Pages of one row each, with an open that fails. -/
theorem insist_flaky : ∃ pages, Pager.of? 1 1 = .ok pages ∧ ∀ calls,
    ⦃flakyIdle 0⦄
    (LiveScan.insist (fun r => flaky.openRange .latest "t" r 9) 4 calls ⟨.all, pages⟩)
    ⦃⇓ r => ⌜LiveScan.Lossless (flakyRows.filter Row.isLive) calls r.1⌝⦄ := by
  have hstart : (1 : UInt64) ≤ 1 := by decide
  obtain ⟨pages, hpages, -, hinsist⟩ : ∃ pages, Pager.of? 1 1 = .ok pages ∧ _ :=
    LiveScan.insist_lossless (s := flaky) flaky_steady hstart
  refine ⟨pages, hpages, fun calls => ?_⟩
  exact Hoare.result (hinsist 0 4 calls (by decide))

end Flaky

end QuorumStore
