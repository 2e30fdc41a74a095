import Mathlib.Algebra.Order.Floor.Div
import QuorumStore.Proofs.Scan.PageSteps

/-!
# Pages of an unchanging source

A pager turns the pages of a source that stays as it is. It may close its cursor and open another
behind the items already seen, and the open may fail, so that it is left without a cursor. Whatever
sizes the pages have, the next one goes on where the last one ended.

* `Pager.bestSize_ne_zero`, `Pager.bestSize_le_max`: no page is asked to be empty, nor too large.
* `PageSource.Lists`: a source whose opens yield the items behind a token, or fail.
* `Pager.Stands`: a pager that has seen some items and has others to come.
* `Stands.ready`, `Stands.end`, `Stands.received`: in each of its steps it stays so.
* `Pager.refresh_spec`: afterwards a cursor yields what is to come, unless nothing is or an open failed.
* `Pager.nextPage_spec`: **a page has the next items**, and is empty only if there are none.
-/

namespace QuorumStore

open Std.Do

namespace Pager

section Sizes

variable {σ : Type} {a b : UInt64} {p : Pager σ}

/-- What a new pager is like, and that pages are not asked to be empty. -/
theorem eq_of_of? {firstSize max : UInt64} (hp : of? firstSize max = .ok p) :
    firstSize ≠ 0 ∧
      p = { firstSize, max := if max = 0 then 1 else max, lastSize := firstSize } := by
  unfold of? at hp
  split at hp
  · cases hp
  · rename_i hfirst
    exact ⟨hfirst, (Except.ok.inj hp).symm⟩

theorem toNat_pos (h : a ≠ 0) : 0 < a.toNat := UInt64.lt_iff_toNat_lt.1 (UInt64.pos_iff_ne_zero.2 h)

theorem toNat_saturatingMul (h : a.toNat * b.toNat < UInt64.size) :
    (saturatingMul a b).toNat = a.toNat * b.toNat := by
  unfold saturatingMul
  rw [if_pos h, UInt64.toNat_mul, Nat.mod_eq_of_lt h]

theorem saturatingMul_ne_zero (ha : a ≠ 0) (hb : b ≠ 0) : saturatingMul a b ≠ 0 := by
  have ha' := toNat_pos ha
  have hb' := toNat_pos hb
  by_cases hfits : a.toNat * b.toNat < UInt64.size
  · intro h
    have hzero : a.toNat * b.toNat = 0 := by
      rw [← toNat_saturatingMul hfits, h]
      rfl
    exact absurd (Nat.mul_pos ha' hb') (by omega)
  · unfold saturatingMul
    rw [if_neg hfits]
    decide

/-- Rounding up never leaves the 64-bit numbers. -/
theorem toNat_divCeil (hb : b ≠ 0) : (divCeil a b).toNat = a.toNat ⌈/⌉ b.toNat := by
  have hb' := toNat_pos hb
  have hsplit := Nat.div_add_mod a.toNat b.toNat
  have hrest : (a % b).toNat = a.toNat % b.toNat := UInt64.toNat_mod a b
  have hlt : a.toNat % b.toNat < b.toNat := Nat.mod_lt _ hb'
  rw [Nat.ceilDiv_eq_add_pred_div]
  unfold divCeil
  split
  · rename_i hmod
    have hzero : a.toNat % b.toNat = 0 := by
      rw [← hrest, hmod]
      rfl
    have hsum : a.toNat + b.toNat - 1 = (b.toNat - 1) + b.toNat * (a.toNat / b.toNat) := by omega
    have hsmall : (b.toNat - 1) / b.toNat = 0 := Nat.div_eq_of_lt (Nat.sub_lt hb' Nat.one_pos)
    rw [UInt64.toNat_div, hsum, Nat.add_mul_div_left _ _ hb', hsmall, Nat.zero_add]
  · rename_i hmod
    have hpos : 0 < a.toNat % b.toNat := by
      refine Nat.pos_of_ne_zero fun hzero => hmod (UInt64.toNat_inj.1 ?_)
      rw [hrest, hzero]
      rfl
    have hsum : a.toNat + b.toNat - 1 =
        (a.toNat % b.toNat - 1) + b.toNat * (a.toNat / b.toNat + 1) := by
      rw [Nat.mul_add_one]
      omega
    have hquotient : a.toNat / b.toNat ≤ b.toNat * (a.toNat / b.toNat) := Nat.le_mul_of_pos_left _ hb'
    have hsmall : (a.toNat % b.toNat - 1) / b.toNat = 0 := Nat.div_eq_of_lt (by omega)
    have hbound := a.toNat_lt
    rw [hsum, Nat.add_mul_div_left _ _ hb', hsmall, Nat.zero_add, UInt64.toNat_add,
      UInt64.toNat_div, UInt64.toNat_one, Nat.mod_eq_of_lt (by omega)]

theorem divCeil_ne_zero (ha : a ≠ 0) (hb : b ≠ 0) : divCeil a b ≠ 0 := by
  have ha' := toNat_pos ha
  have hb' := toNat_pos hb
  intro h
  have hzero : a.toNat ⌈/⌉ b.toNat ≤ 0 := by
    rw [← toNat_divCeil hb, h]
    exact Nat.le_refl 0
  have hle : a.toNat ≤ b.toNat * 0 := (ceilDiv_le_iff_le_mul hb').1 hzero
  omega

/-- The best size before it is cut down to the largest size. -/
def uncutSize (p : Pager σ) : UInt64 :=
  if p.notDeleted = 0 then saturatingMul p.returned 4
  else divCeil (saturatingMul p.firstSize p.returned) p.notDeleted

theorem bestSize_of_returned (h : p.returned ≠ 0) :
    p.bestSize = if p.uncutSize ≤ p.max then p.uncutSize else p.max := if_neg h

/-- **No page is asked to be empty**, as long as neither the first size nor the largest is. -/
theorem bestSize_ne_zero (hfirst : p.firstSize ≠ 0) (hmax : p.max ≠ 0) : p.bestSize ≠ 0 := by
  by_cases hreturned : p.returned = 0
  · have hbest : p.bestSize = p.firstSize := if_pos hreturned
    rw [hbest]
    exact hfirst
  · have hsize : p.uncutSize ≠ 0 := by
      unfold uncutSize
      split
      · exact saturatingMul_ne_zero hreturned (by decide)
      · rename_i hlive
        exact divCeil_ne_zero (saturatingMul_ne_zero hfirst hreturned) hlive
    rw [bestSize_of_returned hreturned]
    split
    · exact hsize
    · exact hmax

/-- **No page that a source is opened for is asked to be empty.** -/
theorem Wants.size_ne_zero {m : Type → Type} {α : Type} {src : PageSource m σ α} {size : UInt64}
    (h : Wants src p size) (hfirst : p.firstSize ≠ 0) (hmax : p.max ≠ 0) : size ≠ 0 := by
  cases htoken : p.lastToken with
  | none =>
    rw [(h.of_none htoken).2]
    exact hfirst
  | some token =>
    rw [(h.of_token htoken).2.2]
    exact bestSize_ne_zero hfirst hmax

/-- Only the first size may be larger than the largest. -/
theorem bestSize_le_max (h : p.returned ≠ 0) : p.bestSize ≤ p.max := by
  rw [bestSize_of_returned h]
  split
  · assumption
  · exact UInt64.le_refl _

end Sizes

end Pager

variable {m : Type → Type} [Monad m] {ps : PostShape.{0}} [WPMonad m ps] {σ α β : Type}
  [Cursor m σ α]

/-- The token behind the items seen; there is none before the first item. -/
def PageSource.tokenAfter (src : PageSource m σ α) (seen : List α) : Option Bytes :=
  if seen.isEmpty then none else some (src.tokenOf seen)

section Lists

variable (idle : Nat → Assertion ps) (reading : Nat → σ → Assertion ps)

/-- A source of unchanging items. Its opens yield the items behind a token, or fail. -/
structure PageSource.Lists (src : PageSource m σ α) (all : List α) : Prop where
  /-- An open gives a cursor over what follows the items seen. -/
  opens : ∀ n size seen rest, all = seen ++ rest →
    ⦃idle n⦄ (src.openAfter size (src.tokenAfter seen))
    ⦃⇓ result => ⌜∀ c, result = .ok c → Cursor.Yields m (reading n) rest c⌝ ∧
      opened idle reading n result⦄
  /-- A cursor is given back on closing. -/
  closes : ∀ n (c : σ), ⦃reading n c⦄ (Cursor.close c : m σ) ⦃⇓ _ => idle n⦄
  /-- The token of items is that of the last of them. -/
  tokenOf_append : ∀ seen page, page ≠ [] → src.tokenOf (seen ++ page) = src.tokenOf page
  /-- Where nothing can follow a token, nothing does. -/
  hasNext : ∀ seen rest, all = seen ++ rest → seen ≠ [] → src.hasNext (src.tokenOf seen) = false →
    rest = []

end Lists

namespace Pager

/-- A pager that has seen some of the items and has the rest before it. Without a cursor it opens
one as soon as it is asked for a page, unless its source has ended. -/
structure Stands (src : PageSource m σ α) (all : List α) (J : σ → Assertion ps)
    (seen rest : List α) (p : Pager σ) : Prop where
  split : all = seen ++ rest
  first : p.firstSize ≠ 0
  bound : p.max ≠ 0
  last : p.lastSize ≠ 0
  token : p.lastToken = src.tokenAfter seen
  yields : ∀ c, p.current = some c → Cursor.Yields m J rest c
  ended : p.exhausted = true → p.current = none ∧ rest = []
  reopens : p.exhausted = false → p.current = none → ∀ token, p.lastToken = some token →
    shouldReopen p.bestSize p.lastSize = true

variable {idle : Nat → Assertion ps} {reading : Nat → σ → Assertion ps} {src : PageSource m σ α}
  {all seen rest : List α} {p : Pager σ} {n : Nat}

/-- A report leaves a pager where it stands, unless it has still to open a cursor. -/
theorem Stands.mark {J : σ → Assertion ps} (h : Stands src all J seen rest p)
    (hcurrent : p.exhausted = true ∨ p.current.isSome = true) (live : UInt64) :
    Stands src all J seen rest (p.mark live) := by
  refine ⟨h.split, h.first, h.bound, h.last, h.token, h.yields, h.ended, fun hopen hnone => ?_⟩
  have hopen : p.exhausted = false := hopen
  have hnone : p.current = none := hnone
  rw [hopen, hnone] at hcurrent
  exact absurd hcurrent (by simp)

/-- A pager that has no cursor has seen what it saw, whatever has failed. -/
theorem Stands.of_none {J J' : σ → Assertion ps} (h : Stands src all J seen rest p)
    (hnone : p.current = none) : Stands src all J' seen rest p := by
  refine ⟨h.split, h.first, h.bound, h.last, h.token, fun c hc => ?_, h.ended, h.reopens⟩
  rw [hnone] at hc
  cases hc

/-- A pager without a cursor whose source is opened gets one behind the items seen, or stands where it
stood. -/
theorem Stands.received (h : Stands src all (reading n) seen rest p) (hnone : p.current = none)
    (hopen : p.exhausted = false) {size : UInt64} (hsize : size ≠ 0) {result : Except Failure σ}
    (hresult : ∀ c, result = .ok c → Cursor.Yields m (reading n) rest c) :
    Stands src all (reading (n + failures (p.received size result).1)) seen rest
        (p.received size result).2 ∧
      ((p.received size result).1 = .ok () → (p.received size result).2.exhausted = true ∨
        (p.received size result).2.current.isSome = true) := by
  cases result with
  | error e => exact ⟨h.of_none hnone, fun hok => by cases hok⟩
  | ok c =>
    refine ⟨⟨h.split, h.first, h.bound, hsize, h.token, ?_, ?_, ?_⟩, fun _ => Or.inr rfl⟩
    · intro c' hc'
      cases hc'
      exact hresult c rfl
    · exact fun hended => absurd (hopen.symm.trans hended) (by decide)
    · exact fun _ hnone' => by cases hnone'

/-- A pager that leaves things as they are has a cursor, or its source has ended. -/
theorem Stands.ready {J : σ → Assertion ps} (h : Stands src all J seen rest p)
    (hwants : ∀ size, ¬ Wants src p size) (hends : ¬ Ends src p) :
    p.exhausted = true ∨ p.current.isSome = true := by
  rw [or_iff_not_imp_left, Bool.not_eq_true, Option.isSome_iff_ne_none]
  intro hopen hnone
  cases htoken : p.lastToken with
  | none => exact hwants _ (wants_firstSize hopen htoken hnone)
  | some token =>
    cases hnext : src.hasNext token with
    | false => exact hends ⟨hopen, token, htoken, hnext⟩
    | true => exact hwants _ (wants_bestSize hopen htoken hnext (h.reopens hopen hnone token htoken))

/-- Where nothing can follow the token of a pager, nothing does. -/
theorem Stands.end {J : σ → Assertion ps} (hsrc : src.Lists idle reading all)
    (h : Stands src all J seen rest p) (hends : Ends src p) :
    Stands src all J seen rest { p with exhausted := true, current := none } := by
  obtain ⟨hopen, token, htoken, hnext⟩ := hends
  have hafter := h.token.symm.trans htoken
  have hseen : seen ≠ [] ∧ src.tokenOf seen = token := by
    unfold PageSource.tokenAfter at hafter
    split at hafter
    · cases hafter
    · rename_i hne
      exact ⟨by simpa using hne, Option.some.inj hafter⟩
  have hrest := hsrc.hasNext seen rest h.split hseen.1 (by rw [hseen.2]; exact hnext)
  refine ⟨h.split, h.first, h.bound, h.last, h.token, ?_, fun _ => ⟨rfl, hrest⟩, ?_⟩
  · exact fun c hc => by cases hc
  · exact fun hfalse => by cases hfalse

/-- **A fitting cursor.** Unless an open failed there is one afterwards, or the source has ended. -/
theorem refresh_spec (hsrc : src.Lists idle reading all) (h : Stands src all (reading n) seen rest p) :
    ⦃held idle reading n p.current⦄ (refresh src p)
    ⦃⇓ r => ⌜Stands src all (reading (n + failures r.1)) seen rest r.2 ∧
      (r.1 = .ok () → r.2.exhausted = true ∨ r.2.current.isSome = true)⌝ ∧
      held idle reading (n + failures r.1) r.2.current⦄ := by
  refine refresh_triple hsrc.closes (fun hwants hends => ?_) (fun hends => ?_) fun size hwants => ?_
  · exact ⟨h, fun _ => h.ready hwants hends⟩
  · exact ⟨h.end hsrc hends, fun _ => Or.inl rfl⟩
  · have hclosed : Stands src all (reading n) seen rest { p with current := none } := by
      refine ⟨h.split, h.first, h.bound, h.last, h.token, fun c hc => ?_, fun hended => ?_,
        fun _ _ _ htoken => (hwants.of_token htoken).2.1⟩
      · cases hc
      · exact absurd (hwants.1.symm.trans hended) (by decide)
    have hopens := hsrc.opens n size seen rest h.split
    rw [← h.token] at hopens
    exact Hoare.mono hopens fun result hresult =>
      hclosed.received rfl hwants.1 (hwants.size_ne_zero h.first h.bound) hresult

/-- What asking for a page comes to: the next items, which are none only at the end, or a failed open
after which the pager stands where it stood. -/
def Turns (src : PageSource m σ α) (all : List α) (reading : Nat → σ → Assertion ps) (n : Nat)
    (seen rest : List α) : Except Failure (List α) × Pager σ → Prop
  | (.error _, p) => Stands src all (reading (n + 1)) seen rest p
  | (.ok page, p) => ∃ rest', rest = page ++ rest' ∧ (page = [] → rest = []) ∧
    Stands src all (reading n) (seen ++ page) rest' p ∧
    (p.exhausted = true ∨ p.current.isSome = true)

/-- The token behind a page. -/
theorem turnPage_token (hsrc : src.Lists idle reading all) (htoken : p.lastToken = src.tokenAfter seen)
    (page : List α) : (turnPage src p page).lastToken = src.tokenAfter (seen ++ page) := by
  unfold turnPage PageSource.tokenAfter
  cases page with
  | nil =>
    rw [List.append_nil]
    exact htoken
  | cons a page =>
    have hne : a :: page ≠ [] := List.cons_ne_nil a page
    rw [hsrc.tokenOf_append seen (a :: page) hne]
    simp

/-- A pager that has read as many items as there are, up to the size it asked for. -/
theorem Stands.drawn (hsrc : src.Lists idle reading all)
    (h : Stands src all (reading n) seen rest p) (hopen : p.exhausted = false) (c : σ)
    (hleft : p.lastSize.toNat ≤ rest.length →
      Cursor.Yields m (reading n) (rest.drop p.lastSize.toNat) c) :
    Turns src all reading n seen rest (p.drawn src c
      (.ok (rest.take p.lastSize.toNat, decide (rest.length < p.lastSize.toNat)))) := by
  have hsize : p.lastSize.toNat ≠ 0 := fun hzero => h.last (UInt64.toNat_inj.1 hzero)
  generalize p.lastSize.toNat = size at hleft hsize
  have htoken : (turnPage src p (rest.take size)).lastToken = src.tokenAfter (seen ++ rest.take size) :=
    turnPage_token hsrc h.token _
  have hsplit : all = seen ++ rest.take size ++ rest.drop size := by
    rw [List.append_assoc, List.take_append_drop]
    exact h.split
  have hempty : rest.take size = [] → rest = [] := fun htake =>
    (List.take_eq_nil_iff.1 htake).resolve_left hsize
  by_cases hshort : rest.length < size
  · -- the source ended within the page
    rw [decide_eq_true hshort]
    refine ⟨_, (List.take_append_drop size rest).symm, hempty, ?_, Or.inl rfl⟩
    refine ⟨hsplit, h.first, h.bound, h.last, htoken, fun c hc => ?_, fun _ => ?_, ?_⟩
    · cases hc
    · exact ⟨rfl, List.drop_eq_nil_of_le (Nat.le_of_lt hshort)⟩
    · exact fun hfalse => by cases hfalse
  · rw [decide_eq_false hshort]
    refine ⟨_, (List.take_append_drop size rest).symm, hempty, ?_, Or.inr rfl⟩
    refine ⟨hsplit, h.first, h.bound, h.last, htoken, fun c hc => ?_, fun hended => ?_, ?_⟩
    · cases hc
      exact hleft (Nat.not_lt.1 hshort)
    · exact absurd (hopen.symm.trans hended) (by decide)
    · exact fun _ hnone => by cases hnone

/-- **A page has the next items.** -/
theorem nextPage_spec (hsrc : src.Lists idle reading all)
    (h : Stands src all (reading n) seen rest p) :
    ⦃held idle reading n p.current⦄ (nextPage src p)
    ⦃⇓ r => ⌜Turns src all reading n seen rest r⌝ ∧
      held idle reading (n + failures r.1) r.2.current⦄ := by
  refine nextPage_triple hsrc.closes (refresh_spec hsrc h) (fun e q hq => hq.1) (fun q hq hnone => ?_)
    fun q c hq hcurrent => ?_
  · have hended : q.exhausted = true := by simpa [hnone] using hq.2 rfl
    refine ⟨rest, rfl, fun _ => (hq.1.ended hended).2, ?_, Or.inl hended⟩
    rw [List.append_nil]
    exact hq.1
  · have hopen : q.exhausted = false := by
      refine eq_false_of_ne_true fun hended => ?_
      cases (hq.1.ended hended).1.symm.trans hcurrent
    refine Hoare.conseq (Cursor.read_spec q.lastSize.toNat (hq.1.yields c hcurrent)) ?_
    rintro ⟨result, c'⟩ ⟨rfl, hleft⟩
    exact ⟨hq.1.drawn hsrc hopen c' hleft, .rfl⟩

end Pager

end QuorumStore
