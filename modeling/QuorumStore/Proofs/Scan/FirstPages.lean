import QuorumStore.Proofs.Scan.LiveRows

/-!
# Paging through a range by tokens

The first page of a range has so many rows, and a token if there are more. The token is the key
right behind the last row of the page, so that the range from the token on has just the rows that
are left. Whoever goes on from token to token loses and repeats none. A page for which there is no room
is never read, even if the range has no rows.

* `Unchanging`: range reads of a table that does not change.
* `IsFirstPage`, `PagesOf`: the first page of a range, and those of several ranges.
* `Service.pageFrom_spec`, `Service.firstPages_spec`: one row of lookahead tells whether there are
  more.
* `Service.firstPages_noRoom`: no page is given where there is no room for one of them.
* `Service.pageThrough`: a reader that goes on from token to token.
* `Service.pageThrough_spec`: **going on from token to token ends and gives every row of the range
  once, in order.**
-/

namespace QuorumStore

open Std Std.Do

section Pages

variable {rows : List (Row Value)} {range : RowRange} {page : Page (Row Value)}

/-- What the first page of a range has to be, of which these are all rows: as many of them as the
batch hint says, but at least one, and 100 without a hint. It has a token if there are more, and
that is the successor of its last row. -/
structure IsFirstPage (rows : List (Row Value)) (range : RowRange) (page : Page (Row Value)) :
    Prop where
  results : page.results = rows.take (max (range.batchHint.getD 100).toNat 1)
  hasMore_iff : page.hasMore = true ↔ max (range.batchHint.getD 100).toNat 1 < rows.length
  token : ∀ token, page.nextToken = some token →
    ∃ last, page.results.getLast? = some last ∧ token = last.key.successor

/-- The first `size` of some rows, with a token if there are more. -/
def firstOf (size : Nat) (rows : List (Row Value)) : Page (Row Value) where
  results := rows.take size
  nextToken :=
    if size < rows.length then (rows.take size).getLast?.map fun row => row.key.successor else none

theorem isFirstPage_firstOf (rows : List (Row Value)) (range : RowRange) :
    IsFirstPage rows range (firstOf range.pageSize rows) := by
  refine ⟨rfl, ?_, fun token htoken => ?_⟩
  · show ((firstOf range.pageSize rows).nextToken).isSome = true ↔ range.pageSize < rows.length
    unfold firstOf
    dsimp only
    split
    · rename_i hmore
      have hpos : 0 < range.pageSize := Nat.le_max_right _ _
      have hne : rows.take range.pageSize ≠ [] := by
        rw [Ne, List.take_eq_nil_iff, not_or]
        exact ⟨Nat.pos_iff_ne_zero.1 hpos, List.ne_nil_of_length_pos (by omega)⟩
      rw [Option.isSome_map, List.getLast?_isSome]
      exact ⟨fun _ => hmore, fun _ => hne⟩
    · rename_i hmore
      exact ⟨nofun, fun h => absurd h hmore⟩
  · unfold firstOf at htoken
    dsimp only at htoken
    split at htoken
    · obtain ⟨last, hlast, rfl⟩ := Option.map_eq_some_iff.1 htoken
      exact ⟨last, hlast, rfl⟩
    · cases htoken

/-- A page without token has all rows. -/
theorem IsFirstPage.results_of_last (h : IsFirstPage rows range page)
    (hlast : page.nextToken = none) : page.results = rows := by
  have hall : rows.length ≤ max (range.batchHint.getD 100).toNat 1 := by
    refine Nat.not_lt.1 fun hmore => ?_
    have hsome := h.hasMore_iff.2 hmore
    unfold Page.hasMore at hsome
    rw [hlast] at hsome
    cases hsome
  rw [h.results, List.take_of_length_le hall]

/-- The token of a page is that of its last row. The other rows come behind it. -/
theorem IsFirstPage.split (h : IsFirstPage rows range page) {token : Bytes}
    (htoken : page.nextToken = some token) : ∃ front last rest,
    page.results = front ++ [last] ∧ rows = front ++ [last] ++ rest ∧
      token = last.key.successor := by
  obtain ⟨last, hlast, rfl⟩ := h.token token htoken
  obtain ⟨front, hfront⟩ := List.getLast?_eq_some_iff.1 hlast
  refine ⟨front, last, rows.drop (max (range.batchHint.getD 100).toNat 1), hfront, ?_, rfl⟩
  rw [← hfront, h.results, List.take_append_drop]

/-- Pages that have all rows between them, each once and in order, the last page without token. -/
structure Enumerates (pages : List (Page (Row Value))) (rows : List (Row Value)) : Prop where
  results : pages.flatMap Page.results = rows
  ends : pages.getLast?.map Page.nextToken = some none

theorem Enumerates.single (hresults : page.results = rows) (hlast : page.nextToken = none) :
    Enumerates [page] rows :=
  ⟨by simpa using hresults, congrArg some hlast⟩

theorem Enumerates.cons {pages : List (Page (Row Value))} (h : Enumerates pages rows)
    (page : Page (Row Value)) : Enumerates (page :: pages) (page.results ++ rows) := by
  refine ⟨by rw [List.flatMap_cons, h.results], ?_⟩
  cases pages with
  | nil => cases h.ends
  | cons next pages =>
    rw [List.getLast?_cons_cons]
    exact h.ends

/-- The pages of some ranges: each of the ranges once, with its first page. -/
structure PagesOf (rows : ColumnFilter → List (Row Value)) (ranges : List RowRange)
    (pages : List (RowRange × Page (Row Value))) : Prop where
  distinct : (pages.map Prod.fst).Nodup
  mem_iff : ∀ range, range ∈ pages.map Prod.fst ↔ range ∈ ranges
  isFirstPage : ∀ range page, (range, page) ∈ pages →
    IsFirstPage (rowsIn (rows range.columns) range) range page

theorem PagesOf.nil (rows : ColumnFilter → List (Row Value)) : PagesOf rows [] [] :=
  ⟨List.nodup_nil, by simp, by simp⟩

/-- Each of the ranges is found, with its first page. -/
theorem PagesOf.find? {rows : ColumnFilter → List (Row Value)} {ranges : List RowRange}
    {pages : List (RowRange × Page (Row Value))} (h : PagesOf rows ranges pages)
    (hrange : range ∈ ranges) : ∃ page, pages.find? (fun e => e.1 = range) = some (range, page) ∧
      IsFirstPage (rowsIn (rows range.columns) range) range page := by
  obtain ⟨e, he, heq⟩ := List.mem_map.1 ((h.mem_iff range).2 hrange)
  obtain ⟨⟨other, page⟩, hfind⟩ := Option.isSome_iff_exists.1
    (List.find?_isSome (p := fun e => e.1 = range).2 ⟨e, he, by simpa using heq⟩)
  obtain rfl : other = range := by simpa using List.find?_some hfind
  exact ⟨page, hfind, h.isFirstPage other page (List.mem_of_find?_eq_some hfind)⟩

theorem keys_setPage (range : RowRange) (page : Page (Row Value))
    (pages : List (RowRange × Page (Row Value))) :
    (Service.setPage range page pages).map Prod.fst =
      if range ∈ pages.map Prod.fst then pages.map Prod.fst else pages.map Prod.fst ++ [range] := by
  induction pages with
  | nil => rfl
  | cons e pages ih =>
    obtain ⟨other, old⟩ := e
    unfold Service.setPage
    by_cases heq : other = range
    · subst heq
      simp
    · have hne : ¬ range = other := fun h => heq h.symm
      rw [if_neg heq, List.map_cons, ih]
      simp only [List.map_cons, List.mem_cons, hne, false_or]
      split <;> rfl

theorem mem_setPage {range other : RowRange} {page old : Page (Row Value)}
    {pages : List (RowRange × Page (Row Value))}
    (h : (other, old) ∈ Service.setPage range page pages) :
    (other = range ∧ old = page) ∨ (other, old) ∈ pages := by
  induction pages with
  | nil =>
    cases List.mem_singleton.1 h
    exact Or.inl ⟨rfl, rfl⟩
  | cons e pages ih =>
    obtain ⟨first, kept⟩ := e
    unfold Service.setPage at h
    split at h
    · rcases List.mem_cons.1 h with heq | hmem
      · cases heq
        exact Or.inl ⟨rfl, rfl⟩
      · exact Or.inr (List.mem_cons_of_mem _ hmem)
    · rcases List.mem_cons.1 h with heq | hmem
      · cases heq
        exact Or.inr List.mem_cons_self
      · exact (ih hmem).imp_right (List.mem_cons_of_mem _)

/-- One range more, or one of them again. -/
theorem PagesOf.setPage {rows : ColumnFilter → List (Row Value)} {ranges : List RowRange}
    {pages : List (RowRange × Page (Row Value))} {range : RowRange} {page : Page (Row Value)}
    (h : PagesOf rows ranges pages)
    (hpage : IsFirstPage (rowsIn (rows range.columns) range) range page) :
    PagesOf rows (ranges ++ [range]) (Service.setPage range page pages) := by
  refine ⟨?_, fun other => ?_, fun other old hmem => ?_⟩
  · rw [keys_setPage]
    split
    · exact h.distinct
    · rename_i hnew
      refine List.nodup_append.2 ⟨h.distinct, by simp, fun a ha b hb heq => ?_⟩
      rw [List.mem_singleton.1 hb] at heq
      exact hnew (heq ▸ ha)
  · rw [keys_setPage, List.mem_append, List.mem_singleton, ← h.mem_iff]
    split
    · rename_i hold
      refine ⟨Or.inl, ?_⟩
      rintro (hmem | rfl)
      · exact hmem
      · exact hold
    · rw [List.mem_append, List.mem_singleton]
  · rcases mem_setPage hmem with ⟨rfl, rfl⟩ | hmem
    · exact hpage
    · exact h.isFirstPage other old hmem

end Pages

section Reading

variable {m : Type → Type} [Monad m] {ps : PostShape.{0}} [WPMonad m ps]

/-- What an open leaves behind: the surroundings of the cursor, if there is one. -/
def leaves {σ : Type} (idle : Assertion ps) (reading : σ → Assertion ps) :
    Except Failure σ → Assertion ps
  | .error _ => idle
  | .ok c => reading c

/-- Range reads of a table that does not change. It has some rows for each choice of columns, in
strictly ascending order, and every open gives a cursor over those of the range. -/
structure Unchanging {σ : Type} [Cursor m σ (Row Value)]
    (openRange : RowRange → m (Except Failure σ)) (rows : ColumnFilter → List (Row Value))
    (idle : Assertion ps) (reading : σ → Assertion ps) : Prop where
  ascending : ∀ columns, (rows columns).Pairwise fun a b => a.key < b.key
  opens : ∀ range, ⦃idle⦄ (openRange range)
    ⦃⇓ result => ⌜∃ c, result = .ok c ∧
      Cursor.Yields m reading (rowsIn (rows range.columns) range) c⌝ ∧ leaves idle reading result⦄
  closes : ∀ c : σ, ⦃reading c⦄ (Cursor.close c : m σ) ⦃⇓ _ => idle⦄

/-- Range reads that leave their surroundings as they are. -/
theorem Unchanging.of_idle {σ : Type} [Cursor m σ (Row Value)]
    {openRange : RowRange → m (Except Failure σ)} {rows : ColumnFilter → List (Row Value)}
    {idle : Assertion ps} (ascending : ∀ columns, (rows columns).Pairwise fun a b => a.key < b.key)
    (opens : ∀ range, ⦃idle⦄ (openRange range)
      ⦃⇓ result => ⌜∃ c, result = .ok c ∧
        Cursor.Yields m (fun _ => idle) (rowsIn (rows range.columns) range) c⌝ ∧ idle⦄)
    (closes : ∀ c : σ, ⦃idle⦄ (Cursor.close c : m σ) ⦃⇓ _ => idle⦄) :
    Unchanging openRange rows idle fun _ => idle := by
  have hleaves : ∀ result : Except Failure σ, leaves idle (fun _ => idle) result = idle := by
    rintro (e | c) <;> rfl
  refine ⟨ascending, fun range => ?_, closes⟩
  simp only [hleaves]
  exact opens range

namespace Service

variable {κ : Type → Type} [Cursor m (κ Value) (Row Value)] {s : Service m κ} {table : TableName}
  {t : Timestamp} {rows : ColumnFilter → List (Row Value)} {idle : Assertion ps}
  {reading : κ Value → Assertion ps}

/-- **One row of lookahead** tells whether there are more rows than the page has. -/
theorem pageFrom_spec {items : List (Row Value)} {c : κ Value} (size : Nat)
    (h : Cursor.Yields m reading items c) :
    ⦃reading c⦄ (pageFrom c size : m _)
    ⦃⇓ r => ⌜r.1 = .ok (firstOf size items)⌝ ∧ reading r.2⦄ := by
  unfold pageFrom
  refine Hoare.bind (Cursor.read_spec size h) ?_
  rintro ⟨result, c'⟩ ⟨rfl, hrest⟩
  by_cases hshort : items.length < size
  · rw [decide_eq_true hshort]
    have hpage : firstOf size items = ⟨items.take size, none⟩ := by
      unfold firstOf
      rw [if_neg (by omega)]
    exact Hoare.pure (by rw [hpage]) .rfl
  · rw [decide_eq_false hshort]
    have hyields := hrest (by omega)
    cases hleft : items.drop size with
    | nil =>
      rw [hleft] at hyields
      have hexact : items.length ≤ size := List.drop_eq_nil_iff.1 hleft
      have hpage : firstOf size items = ⟨items.take size, none⟩ := by
        unfold firstOf
        rw [if_neg (by omega)]
      refine Hoare.bind hyields ?_
      rintro ⟨result, c''⟩ rfl
      exact Hoare.pure (by rw [hpage]) .rfl
    | cons row left =>
      rw [hleft] at hyields
      have hmore : size < items.length := by
        have hlength := congrArg List.length hleft
        rw [List.length_drop, List.length_cons] at hlength
        omega
      refine Hoare.bind hyields ?_
      rintro ⟨result, c''⟩ ⟨rfl, -⟩
      refine Hoare.pure ?_ .rfl
      unfold firstOf
      rw [if_pos hmore]

/-- The first page of a range. -/
theorem firstPage_spec (h : Unchanging (fun r => s.openRange .latest table r t) rows idle reading)
    {range : RowRange} (hroom : range.pageSize ≤ maxPageSize) :
    ⦃idle⦄ (s.firstPage table range t)
    ⦃⇓ result => ⌜∃ page, result = .ok page ∧
      IsFirstPage (rowsIn (rows range.columns) range) range page⌝ ∧ idle⦄ := by
  unfold firstPage
  refine Hoare.bind (h.opens range) ?_
  rintro result ⟨c, rfl, hyields⟩
  dsimp only
  rw [if_neg (Nat.not_lt.2 hroom)]
  refine Hoare.bind (pageFrom_spec range.pageSize hyields) ?_
  rintro ⟨page, c'⟩ rfl
  refine Hoare.keep (h.closes c') fun _ => Hoare.pure ?_ .rfl
  exact ⟨_, rfl, isFirstPage_firstOf _ range⟩

/-- A page for which there is no room is not read. -/
theorem firstPage_noRoom (h : Unchanging (fun r => s.openRange .latest table r t) rows idle reading)
    {range : RowRange} (hlt : maxPageSize < range.pageSize) :
    ⦃idle⦄ (s.firstPage table range t) ⦃⇓ result => ⌜result = .error .noRoom⌝⦄ := by
  unfold firstPage
  refine Hoare.bind (h.opens range) ?_
  rintro result ⟨c, rfl, -⟩
  dsimp only
  rw [if_pos hlt]
  exact Triple.pure _ (SPred.pure_intro rfl)

/-- The first pages of further ranges. -/
theorem firstPages_spec (h : Unchanging (fun r => s.openRange .latest table r t) rows idle reading)
    {done : List RowRange} {pages : List (RowRange × Page (Row Value))}
    (hpages : PagesOf rows done pages) {ranges : List RowRange}
    (hroom : ∀ range ∈ ranges, range.pageSize ≤ maxPageSize) :
    ⦃idle⦄ (s.firstPages table t pages ranges)
    ⦃⇓ result => ⌜∃ pages, result = .ok pages ∧ PagesOf rows (done ++ ranges) pages⌝ ∧ idle⦄ := by
  induction ranges generalizing done pages with
  | nil =>
    refine Hoare.pure ⟨pages, rfl, ?_⟩ .rfl
    rw [List.append_nil]
    exact hpages
  | cons range ranges ih =>
    refine Hoare.bind (firstPage_spec h (hroom range List.mem_cons_self)) ?_
    rintro result ⟨page, rfl, hpage⟩
    have hrest := ih (hpages.setPage hpage) fun other hother =>
      hroom other (List.mem_cons_of_mem range hother)
    rw [List.append_assoc] at hrest
    exact hrest

/-- Where there is no room for one of the pages none is given. -/
theorem firstPages_noRoom (h : Unchanging (fun r => s.openRange .latest table r t) rows idle reading)
    (pages : List (RowRange × Page (Row Value))) {ranges : List RowRange} {range : RowRange}
    (hrange : range ∈ ranges) (hlt : maxPageSize < range.pageSize) :
    ⦃idle⦄ (s.firstPages table t pages ranges) ⦃⇓ result => ⌜result = .error .noRoom⌝⦄ := by
  induction ranges generalizing pages with
  | nil => cases hrange
  | cons first ranges ih =>
    unfold firstPages
    by_cases hroom : first.pageSize ≤ maxPageSize
    · have hlater : range ∈ ranges := by
        rcases List.mem_cons.1 hrange with rfl | hlater
        · exact absurd hroom (Nat.not_le.2 hlt)
        · exact hlater
      refine Hoare.bind (firstPage_spec h hroom) ?_
      rintro result ⟨page, rfl, -⟩
      exact ih _ hlater
    · have hfirst := firstPage_noRoom h (Nat.not_le.1 hroom)
      refine Triple.bind _ _ hfirst fun result => SPred.pure_elim' ?_
      rintro rfl
      exact Triple.pure _ (SPred.pure_intro rfl)

/-- The first pages of a range, of the range from its token on, and so on, up to a page without
token or so many pages. -/
def pageThrough (s : Service m κ) (table : TableName) (t : Timestamp) :
    Nat → RowRange → m (Except PageError (List (Page (Row Value))))
  | 0, _ => return .ok []
  | asks + 1, range => do
    match ← s.firstPages table t [] [range] with
    | .error e => return .error e
    | .ok pages =>
      match pages.find? fun e => e.1 = range with
      | none => return .ok []
      | some (_, page) =>
        match page.nextToken with
        | none => return .ok [page]
        | some token =>
          return (← pageThrough s table t asks { range with start := token }).map (page :: ·)

/-- **Going on from token to token** gives every row of the range once, in order. -/
theorem pageThrough_spec
    (h : Unchanging (fun r => s.openRange .latest table r t) rows idle reading) {asks : Nat}
    {range : RowRange} (hroom : range.pageSize ≤ maxPageSize)
    (hasks : (rowsIn (rows range.columns) range).length < asks) :
    ⦃idle⦄ (s.pageThrough table t asks range)
    ⦃⇓ result => ⌜∃ pages, result = .ok pages ∧
      Enumerates pages (rowsIn (rows range.columns) range)⌝ ∧ idle⦄ := by
  induction asks generalizing range with
  | zero => exact absurd hasks (Nat.not_lt_zero _)
  | succ asks ih =>
    refine Hoare.bind (firstPages_spec h (PagesOf.nil rows) (List.forall_mem_singleton.2 hroom)) ?_
    rintro result ⟨pages, rfl, hpages⟩
    obtain ⟨page, hfind, hpage⟩ := hpages.find? (List.mem_singleton_self range)
    dsimp only
    rw [hfind]
    cases htoken : page.nextToken with
    | none =>
      have hall := hpage.results_of_last htoken
      simp only [htoken]
      exact Hoare.pure ⟨[page], rfl, Enumerates.single hall htoken⟩ .rfl
    | some token =>
      obtain ⟨front, last, rest, hresults, hsplit, rfl⟩ := hpage.split htoken
      -- from the token on there are just the rows that are left
      have hrest : rowsIn (rows range.columns) (range.resumeAfter last.key) = rest :=
        rowsIn_resumeAfter (h.ascending range.columns) hsplit
      have hfewer : rest.length < asks := by
        have hlength := congrArg List.length hsplit
        simp only [List.length_append, List.length_singleton] at hlength
        omega
      rw [← hrest] at hfewer
      simp only [htoken]
      have hsame : (range.resumeAfter last.key).pageSize ≤ maxPageSize := hroom
      refine Hoare.bind (ih hsame hfewer) ?_
      rintro result ⟨later, rfl, hlater⟩
      refine Hoare.pure ⟨page :: later, rfl, ?_⟩ .rfl
      have hall := hlater.cons page
      rw [hresults] at hall
      rw [hsplit, ← hrest]
      exact hall

end Service

end Reading

end QuorumStore
