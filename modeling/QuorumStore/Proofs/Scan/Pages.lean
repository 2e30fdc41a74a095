import QuorumStore.Proofs.Scan.Pager
import QuorumStore.Scan.Numbers

/-!
# Pages without a gap

A source is opened behind the last page that its reader was given, and opens and reads may fail. A page
that fails midway is dropped, and a cursor that is opened later goes on where the last page ended. So
no item is left out, and none comes twice.

* `PageSource.Resumes`: a source that can be opened behind any page.
* `Pager.Placed`: a pager that has returned some items and has others before it.
* `Pager.Stranded`: a pager that has lost its cursor and does not open another.
* `Pager.Settled`, `Pager.Turned`: what is known when it has seen to its cursor, and when it has a page.
* `Pager.nextPage_placed`: **a page has the next items.**
* `NumberSource.pages_resumes`: numbers are such a source, whatever faults they have.
-/

namespace QuorumStore

open Std.Do

variable {m : Type → Type} [Monad m] {ps : PostShape.{0}} [WPMonad m ps] {σ α : Type} [Cursor m σ α]

/-- The token behind some items is that of the last page of them. There is none before the first. -/
def PageSource.IsTokenAfter (src : PageSource m σ α) (seen : List α) : Option Bytes → Prop
  | none => seen = []
  | some token => ∃ front page, seen = front ++ page ∧ page ≠ [] ∧ token = src.tokenOf page

section Around

variable (idle : Assertion ps) (reading : σ → Assertion ps)

/-- The surroundings of a cursor, or of none. -/
abbrev around : Option σ → Assertion ps := held (fun _ => idle) (fun _ => reading) 0

/-- A source of unchanging items that can be opened behind any page of them. Opens may fail, and so
may the reads of a cursor. What can be left at a token that is said to be the last is `leftover`. -/
structure PageSource.Resumes (src : PageSource m σ α) (all : List α) (leftover : List α → Prop) :
    Prop where
  opens : ∀ size seen rest token, all = seen ++ rest → src.IsTokenAfter seen token →
    ⦃idle⦄ (src.openAfter size token)
    ⦃⇓ result => ⌜∀ c, result = .ok c → Cursor.Follows m reading rest c⌝ ∧
      around idle reading result.toOption⦄
  closes : ∀ c : σ, ⦃reading c⦄ (Cursor.close c : m σ) ⦃⇓ _ => idle⦄
  hasNext : ∀ seen rest token, all = seen ++ rest → src.IsTokenAfter seen (some token) →
    src.hasNext token = false → leftover rest
  leftover_nil : leftover []

end Around

namespace Pager

/-- A pager that has returned some items and has the rest before it. -/
structure Placed (src : PageSource m σ α) (all : List α) (leftover : List α → Prop)
    (reading : σ → Assertion ps) (seen rest : List α) (p : Pager σ) : Prop where
  split : all = seen ++ rest
  first : p.firstSize ≠ 0
  bound : p.max ≠ 0
  last : p.lastSize ≠ 0
  count : p.returned = UInt64.ofNat seen.length
  token : src.IsTokenAfter seen p.lastToken
  follows : ∀ c, p.current = some c → Cursor.Follows m reading rest c
  ended : p.exhausted = true → p.current = none ∧ leftover rest

/-- A pager that lost its cursor to a failed open, and whose best size has since come so near to the
last one that it does not try again. -/
structure Stranded (src : PageSource m σ α) (p : Pager σ) : Prop where
  unfinished : p.exhausted = false
  lost : p.current = none
  unopened : shouldReopen p.bestSize p.lastSize = false
  more : ∃ token, p.lastToken = some token ∧ src.hasNext token = true

variable {idle : Assertion ps} {reading : σ → Assertion ps} {src : PageSource m σ α}
  {all seen rest : List α} {leftover : List α → Prop} {p : Pager σ}

theorem Placed.mark (h : Placed src all leftover reading seen rest p) (live : UInt64) :
    Placed src all leftover reading seen rest (p.mark live) :=
  ⟨h.split, h.first, h.bound, h.last, h.count, h.token, h.follows, h.ended⟩

theorem Placed.stay (h : Placed src all leftover reading seen rest p) :
    Placed src all leftover reading (seen ++ []) rest p := by
  rw [List.append_nil]
  exact h

theorem Placed.hold (h : Placed src all leftover reading seen rest p) (hopen : p.exhausted = false)
    {current : Option σ} (hcurrent : ∀ c, current = some c → Cursor.Follows m reading rest c) :
    Placed src all leftover reading seen rest { p with current } := by
  refine ⟨h.split, h.first, h.bound, h.last, h.count, h.token, hcurrent, ?_⟩
  intro hended
  rw [hopen] at hended
  cases hended

theorem Placed.end (h : Placed src all leftover reading seen rest p) (hleftover : leftover rest) :
    Placed src all leftover reading seen rest { p with exhausted := true, current := none } := by
  refine ⟨h.split, h.first, h.bound, h.last, h.count, h.token, ?_, fun _ => ⟨rfl, hleftover⟩⟩
  intro c hc
  cases hc

/-- What is known of a pager that has seen to its cursor, where that did not fail: if it has no cursor
the reading has ended or it is stranded. -/
def Settled (src : PageSource m σ α) (all : List α) (leftover : List α → Prop)
    (reading : σ → Assertion ps) (seen rest : List α) (r : Except Failure Unit × Pager σ) : Prop :=
  Placed src all leftover reading seen rest r.2 ∧
    (r.1 = .ok () → r.2.current = none → r.2.exhausted = true ∨ r.2.Stranded src)

/-- A pager whose source is opened has a cursor over what is before it, or none. -/
theorem Placed.received (h : Placed src all leftover reading seen rest p) (hopen : p.exhausted = false)
    {size : UInt64} (hsize : size ≠ 0) {result : Except Failure σ}
    (hresult : ∀ c, result = .ok c → Cursor.Follows m reading rest c) :
    Settled src all leftover reading seen rest (p.received size result) := by
  cases result with
  | error e => exact ⟨h, fun hok => by cases hok⟩
  | ok c =>
    refine ⟨⟨h.split, h.first, h.bound, hsize, h.count, h.token, ?_, ?_⟩, fun _ hnone => by cases hnone⟩
    · intro c' hc'
      cases hc'
      exact hresult c rfl
    · exact fun hended => absurd (hopen.symm.trans hended) (by decide)

/-- A pager that leaves things as they are without a cursor has ended, or it is stranded. -/
theorem Placed.settled (h : Placed src all leftover reading seen rest p)
    (hwants : ∀ size, ¬ Wants src p size) (hends : ¬ Ends src p) :
    Settled src all leftover reading seen rest (.ok (), p) := by
  refine ⟨h, fun _ hnone => ?_⟩
  rw [or_iff_not_imp_left, Bool.not_eq_true]
  intro hopen
  cases htoken : p.lastToken with
  | none => exact absurd (wants_firstSize hopen htoken hnone) (hwants _)
  | some token =>
    have hnext : src.hasNext token = true := by
      by_contra hlast
      exact hends ⟨hopen, token, htoken, eq_false_of_ne_true hlast⟩
    refine ⟨hopen, hnone, eq_false_of_ne_true fun hreopen => ?_, token, htoken, hnext⟩
    exact hwants _ (wants_bestSize hopen htoken hnext hreopen)

/-- Where there is no cursor although no open failed, the reading has ended or the pager is stranded. -/
theorem refresh_placed (hsrc : src.Resumes idle reading all leftover)
    (h : Placed src all leftover reading seen rest p) :
    ⦃around idle reading p.current⦄ (refresh src p)
    ⦃⇓ r => ⌜Settled src all leftover reading seen rest r⌝ ∧ around idle reading r.2.current⦄ := by
  refine refresh_triple (n := 0) (fun _ => hsrc.closes) h.settled (fun hends => ?_) fun size hwants => ?_
  · obtain ⟨hopen, token, htoken, hnext⟩ := hends
    have hleftover : leftover rest := hsrc.hasNext seen rest token h.split (htoken ▸ h.token) hnext
    exact ⟨h.end hleftover, fun _ _ => Or.inl rfl⟩
  · -- only an open can fail, and it fails after the old cursor is gone
    have hdropped : Placed src all leftover reading seen rest { p with current := none } :=
      h.hold hwants.1 fun c hc => by cases hc
    exact Hoare.mono (hsrc.opens size seen rest p.lastToken h.split h.token) fun result hresult =>
      hdropped.received hwants.1 (hwants.size_ne_zero h.first h.bound) hresult

/-- What asking for a page comes to: a failure that leaves the pager in its place, or the next items. -/
def Turned (src : PageSource m σ α) (all : List α) (leftover : List α → Prop)
    (reading : σ → Assertion ps) (seen rest : List α) : Except Failure (List α) × Pager σ → Prop
  | (.error _, p) => Placed src all leftover reading seen rest p
  | (.ok page, p) => ∃ rest', rest = page ++ rest' ∧
    Placed src all leftover reading (seen ++ page) rest' p ∧
    (page = [] → p.exhausted = true ∨ p.Stranded src)

/-- A page that was read moves a pager on, whatever becomes of its cursor. -/
theorem Placed.turn (h : Placed src all leftover reading seen rest p) (hopen : p.exhausted = false)
    {page rest' : List α} {current : Option σ} (hrest : rest = page ++ rest')
    (hcurrent : ∀ c, current = some c → Cursor.Follows m reading rest' c) :
    Placed src all leftover reading (seen ++ page) rest' (turnPage src { p with current } page) := by
  have htoken : src.IsTokenAfter (seen ++ page) (turnPage src { p with current } page).lastToken := by
    unfold turnPage
    cases page with
    | nil =>
      rw [List.append_nil]
      exact h.token
    | cons a page => exact ⟨seen, a :: page, rfl, List.cons_ne_nil a page, rfl⟩
  have hcount : p.returned + UInt64.ofNat page.length = UInt64.ofNat (seen ++ page).length := by
    rw [List.length_append, UInt64.ofNat_add, ← h.count]
  refine ⟨?_, h.first, h.bound, h.last, hcount, htoken, hcurrent, ?_⟩
  · rw [h.split, hrest, List.append_assoc]
  · intro hended
    have hended : p.exhausted = true := hended
    rw [hopen] at hended
    cases hended

/-- A pager that has read as many items as there are, up to the size it asked for. -/
theorem Placed.drawn (h : Placed src all leftover reading seen rest p) (hopen : p.exhausted = false)
    (hnil : leftover []) (c : σ) (hleft : p.lastSize.toNat ≤ rest.length →
      Cursor.Follows m reading (rest.drop p.lastSize.toNat) c) :
    Turned src all leftover reading seen rest (p.drawn src c
      (.ok (rest.take p.lastSize.toNat, decide (rest.length < p.lastSize.toNat)))) := by
  have hsize : p.lastSize.toNat ≠ 0 := fun hzero => h.last (UInt64.toNat_inj.1 hzero)
  generalize p.lastSize.toNat = size at hleft hsize
  have hsplit : rest = rest.take size ++ rest.drop size := (List.take_append_drop size rest).symm
  by_cases hshort : rest.length < size
  · -- the source ended within the page
    rw [decide_eq_true hshort]
    rw [List.drop_eq_nil_of_le (Nat.le_of_lt hshort)] at hsplit
    have hplaced : Placed src all leftover reading (seen ++ rest.take size) []
        (turnPage src { p with current := none } (rest.take size)) :=
      h.turn hopen hsplit fun c hc => by cases hc
    exact ⟨[], hsplit, hplaced.end hnil, fun _ => Or.inl rfl⟩
  · rw [decide_eq_false hshort]
    have hplaced : Placed src all leftover reading (seen ++ rest.take size) (rest.drop size)
        (turnPage src { p with current := some c } (rest.take size)) := by
      refine h.turn hopen hsplit fun c' hc' => ?_
      cases hc'
      exact hleft (Nat.le_of_not_lt hshort)
    refine ⟨rest.drop size, hsplit, hplaced, fun hempty => ?_⟩
    have hlength := congrArg List.length hempty
    rw [List.length_take, List.length_nil] at hlength
    omega

/-- **A page has the next items.** -/
theorem nextPage_placed (hsrc : src.Resumes idle reading all leftover)
    (h : Placed src all leftover reading seen rest p) :
    ⦃around idle reading p.current⦄ (nextPage src p)
    ⦃⇓ r => ⌜Turned src all leftover reading seen rest r⌝ ∧ around idle reading r.2.current⦄ := by
  refine nextPage_triple (n := 0) (fun _ => hsrc.closes) (refresh_placed hsrc h)
    (fun e q hq => hq.1) (fun q hq hnone => ⟨rest, rfl, hq.1.stay, fun _ => hq.2 rfl hnone⟩)
    fun q c hq hcurrent => ?_
  have hopen : q.exhausted = false := by
    refine eq_false_of_ne_true fun hended => ?_
    cases (hq.1.ended hended).1.symm.trans hcurrent
  refine Hoare.mono (Cursor.read_follows q.lastSize.toNat (hq.1.follows c hcurrent)) ?_
  rintro ⟨result, c'⟩ (⟨rfl, hleft⟩ | ⟨⟨e, rfl⟩, hbroken⟩)
  · exact hq.1.drawn hopen hsrc.leftover_nil c' hleft
  · -- what the failed page had read is dropped
    refine hq.1.hold hopen fun c'' hc'' => ?_
    cases hc''
    exact hbroken.follows rest

end Pager

theorem PageSource.Resumes.mono {idle : Assertion ps} {reading : σ → Assertion ps}
    {src : PageSource m σ α} {all : List α} {leftover leftover' : List α → Prop}
    (h : src.Resumes idle reading all leftover) (hleftover : ∀ rest, leftover rest → leftover' rest) :
    src.Resumes idle reading all leftover' :=
  ⟨h.opens, h.closes, fun seen rest token hsplit htoken hlast =>
    hleftover rest (h.hasNext seen rest token hsplit htoken hlast), hleftover [] h.leftover_nil⟩

theorem numberOfToken_tokenOfNumber {n : Nat} (h : n < UInt32.size) :
    numberOfToken (tokenOfNumber n) = n := by
  have h : n < 4294967296 := h
  simp only [numberOfToken, tokenOfNumber, List.foldl_cons, List.foldl_nil, UInt8.toNat_ofNat',
    Nat.shiftRight_eq_div_pow]
  omega

theorem NumberCursor.broken (items : List Nat) (e : Failure) :
    Cursor.Broken Recording (fun _ => ⌜True⌝)
      (⟨{ items, breaksAfter := some (0, e) }⟩ : NumberCursor) := by
  refine ⟨fun c => ∃ items, c = ⟨{ items, breaksAfter := some (0, e) }⟩, ⟨items, rfl⟩, ?_⟩
  rintro c ⟨items', rfl⟩
  exact Hoare.pure ⟨⟨e, rfl⟩, items', rfl⟩ .rfl

/-- Numbers in memory are read in turn until the reads that are let through are used up. -/
theorem NumberCursor.follows (items : List Nat) (breaksAfter : Option (Nat × Failure)) :
    Cursor.Follows Recording (fun _ => ⌜True⌝) items (⟨{ items, breaksAfter }⟩ : NumberCursor) := by
  induction items generalizing breaksAfter with
  | nil =>
    obtain _ | ⟨reads | reads, e⟩ := breaksAfter
    · exact Hoare.pure (Or.inl rfl) .rfl
    · exact Hoare.pure (Or.inr ⟨⟨e, rfl⟩, NumberCursor.broken [] e⟩) .rfl
    · exact Hoare.pure (Or.inl rfl) .rfl
  | cons n items ih =>
    obtain _ | ⟨reads | reads, e⟩ := breaksAfter
    · exact Hoare.pure (Or.inl ⟨rfl, ih none⟩) .rfl
    · exact Hoare.pure (Or.inr ⟨⟨e, rfl⟩, NumberCursor.broken (n :: items) e⟩) .rfl
    · exact Hoare.pure (Or.inl ⟨rfl, ih (some (reads, e))⟩) .rfl

/-- The token behind the first numbers is the last of them. -/
theorem NumberSource.numberOfToken_of_isTokenAfter {s : NumberSource} {seen rest : List Nat}
    {token : Bytes} (hlength : s.length ≤ UInt32.size) (hsplit : List.range s.length = seen ++ rest)
    (htoken : s.pages.IsTokenAfter seen (some token)) :
    numberOfToken token + 1 = seen.length := by
  obtain ⟨front, page, hseen, hpage, rfl⟩ := htoken
  obtain ⟨last, hlast⟩ := List.getLast?_isSome.2 hpage |> Option.isSome_iff_exists.1
  have hbound : seen.length ≤ s.length := by
    have hsum := congrArg List.length hsplit
    rw [List.length_range, List.length_append] at hsum
    omega
  have hpos : 0 < seen.length := by
    rw [hseen, List.length_append]
    have := List.length_pos_iff.2 hpage
    omega
  have hget : seen.getLast? = some last := by
    rw [hseen, List.getLast?_append, hlast]
    rfl
  have hvalue : last = seen.length - 1 := by
    rw [List.getLast?_eq_getElem?] at hget
    have hrange : (List.range s.length)[seen.length - 1]? = some last := by
      rw [hsplit, List.getElem?_append_left (by omega)]
      exact hget
    rw [List.getElem?_range (by omega)] at hrange
    exact (Option.some.inj hrange).symm
  -- a page ends where the items seen end, so its last number is theirs
  have htokenOf : s.pages.tokenOf page = tokenOfNumber last := by
    unfold NumberSource.pages
    dsimp only
    rw [List.getLastD_eq_getLast?, hlast]
    rfl
  rw [htokenOf, numberOfToken_tokenOfNumber (by omega)]
  omega

theorem NumberSource.pages_resumes (s : NumberSource) (hbounded : s.bounded = false)
    (hlength : s.length ≤ UInt32.size) :
    s.pages.Resumes ⌜True⌝ (fun _ => ⌜True⌝) (List.range s.length) (· = []) := by
  have hrest : ∀ seen rest, List.range s.length = seen ++ rest →
      rest = List.range' seen.length (s.length - seen.length) := by
    intro seen rest hsplit
    rw [List.range_eq_range'] at hsplit
    obtain ⟨k, hk, rfl, rfl⟩ := List.range'_eq_append_iff.1 hsplit
    simp
  refine ⟨?_, ?_, ?_, rfl⟩
  · intro size seen rest token hsplit htoken
    have hfirst : (token.map fun t => numberOfToken t + 1).getD 0 = seen.length := by
      cases token with
      | none =>
        have hseen : seen = [] := htoken
        rw [hseen]
        rfl
      | some token => exact numberOfToken_of_isTokenAfter hlength hsplit htoken
    have hcursor : s.cursor seen.length size =
        ⟨{ items := rest, breaksAfter := s.cursorLimit.map (·, .replicaCall "cursor") }⟩ := by
      unfold NumberSource.cursor
      rw [hbounded, hrest seen rest hsplit]
      rfl
    unfold NumberSource.pages
    dsimp only
    rw [hfirst, hcursor]
    have hrecord : ∀ f : NumberRecord → NumberRecord,
        ⦃⌜True⌝⦄ (modify f : Recording PUnit) ⦃⇓ _ => ⌜True⌝⦄ := fun f _ _ => trivial
    have hlook : ⦃⌜True⌝⦄ (get : Recording NumberRecord) ⦃⇓ _ => ⌜True⌝⦄ := fun _ _ => trivial
    refine Hoare.keep (hrecord _) fun _ => Hoare.keep hlook fun record => ?_
    split
    · exact Hoare.pure (fun c hc => by cases hc) .rfl
    · refine Hoare.pure (fun c hc => ?_) .rfl
      cases hc
      exact NumberCursor.follows rest _
  · intro c record _
    trivial
  · intro seen rest token hsplit htoken hlast
    have hvalue := numberOfToken_of_isTokenAfter hlength hsplit htoken
    have hlast : decide (numberOfToken token + 1 < s.length) = false := hlast
    rw [decide_eq_false_iff_not] at hlast
    rw [hrest seen rest hsplit, List.range'_eq_nil_iff]
    omega

end QuorumStore
