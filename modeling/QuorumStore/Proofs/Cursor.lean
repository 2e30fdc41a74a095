import QuorumStore.Cursor
import QuorumStore.Proofs.Triple

/-!
# What a cursor gives

A cursor is described by the items it gives, one for each read, and by how it ends. Its
surroundings may change from read to read: an assertion `J c` speaks of them where the cursor
stands at `c`.

* `Cursor.Gives`: the items of a cursor and its end.
* `Cursor.Delivers`, `Cursor.Yields`: cursors that end in any way, and those that just end.
* `Cursor.Follows`, `Cursor.Broken`: cursors that may fail, and then go on failing.
* `Cursor.read_spec`, `Cursor.collect_spec`: what reading ahead and reading to the end find.
* `Cursor.read_follows`: what reading ahead finds where a read may fail.
* `Feed.yields`, `Feed.gives`: sequences in memory, whole or broken down.
-/

namespace QuorumStore

open Std.Do

namespace Cursor

section Gives

variable (m : Type → Type) [Monad m] {ps : PostShape.{0}} [WPMonad m ps] {σ α : Type} [Cursor m σ α]

/-- Each read gives the next item. After the last item a read has a result that `ending` allows. -/
def Gives (J : σ → Assertion ps) (ending : Except Failure (Option α) → Prop) :
    List α → σ → Prop
  | [], c => ⦃J c⦄ (next c : m _) ⦃⇓ r => ⌜ending r.1⌝ ∧ J r.2⦄
  | a :: items, c =>
    ⦃J c⦄ (next c : m _) ⦃⇓ r => ⌜r.1 = .ok (some a) ∧ Gives J ending items r.2⌝ ∧ J r.2⦄

/-- The cursor gives the items and then ends or fails. -/
abbrev Delivers (J : σ → Assertion ps) : List α → σ → Prop :=
  Gives m J fun result => ∀ a, result ≠ .ok (some a)

/-- The cursor gives the items and ends. -/
abbrev Yields (J : σ → Assertion ps) : List α → σ → Prop := Gives m J (· = .ok none)

/-- Every read fails, now and later. -/
def Broken (J : σ → Assertion ps) (c : σ) : Prop :=
  ∃ B : σ → Prop, B c ∧ ∀ c, B c →
    ⦃J c⦄ (next c : m _) ⦃⇓ r => ⌜(∃ e, r.1 = .error e) ∧ B r.2⌝ ∧ J r.2⦄

/-- Each read gives the next item, or the end after the last one, until a read fails. From then on
every read does. -/
def Follows (J : σ → Assertion ps) : List α → σ → Prop
  | [], c => ⦃J c⦄ (next c : m _)
    ⦃⇓ r => ⌜r.1 = .ok none ∨ (∃ e, r.1 = .error e) ∧ Broken m J r.2⌝ ∧ J r.2⦄
  | a :: items, c => ⦃J c⦄ (next c : m _)
    ⦃⇓ r => ⌜(r.1 = .ok (some a) ∧ Follows J items r.2) ∨
      (∃ e, r.1 = .error e) ∧ Broken m J r.2⌝ ∧ J r.2⦄

end Gives

theorem Gives.imp {m : Type → Type} [Monad m] {ps : PostShape.{0}} [WPMonad m ps] {σ α : Type}
    [Cursor m σ α] {J : σ → Assertion ps} {ending ending' : Except Failure (Option α) → Prop}
    (hending : ∀ result, ending result → ending' result) {items : List α} {c : σ}
    (h : Gives m J ending items c) : Gives m J ending' items c := by
  induction items generalizing c with
  | nil => exact Hoare.mono h fun r => hending r.1
  | cons a items ih => exact Hoare.mono h fun r hr => ⟨hr.1, ih hr.2⟩

/-- A cursor that just ends delivers what it yields. -/
theorem Yields.delivers {m : Type → Type} [Monad m] {ps : PostShape.{0}} [WPMonad m ps]
    {σ α : Type} [Cursor m σ α] {J : σ → Assertion ps} {items : List α} {c : σ}
    (h : Yields m J items c) : Delivers m J items c :=
  Gives.imp (by rintro _ rfl a; simp) h

variable {m : Type → Type} [Monad m] {ps : PostShape.{0}} [WPMonad m ps] {σ α : Type}
  [Cursor m σ α] {J : σ → Assertion ps} {c : σ} {items : List α}

/-- A cursor that breaks down, or just ends, delivers what it gives. -/
theorem Gives.delivers {broken : Bool} (h : Gives m J
    (fun result => if broken = true then ∃ e, result = .error e else result = .ok none) items c) :
    Delivers m J items c := by
  refine Gives.imp (fun result hend a hrow => ?_) h
  subst hrow
  split at hend
  · obtain ⟨e, he⟩ := hend
    cases he
  · cases hend

/-- **Reading ahead** gives as many items as there are, and leaves the others. -/
theorem read_spec (n : Nat) (h : Yields m J items c) :
    ⦃J c⦄ (read n c : m _)
    ⦃⇓ r => ⌜r.1 = .ok (items.take n, decide (items.length < n)) ∧
      (n ≤ items.length → Yields m J (items.drop n) r.2)⌝ ∧ J r.2⦄ := by
  induction n generalizing c items with
  | zero => exact Hoare.pure ⟨by simp, fun _ => h⟩ .rfl
  | succ n ih =>
    cases items with
    | nil =>
      refine Hoare.bind h ?_
      rintro ⟨result, s⟩ rfl
      exact Hoare.pure ⟨rfl, fun hle => absurd hle (Nat.not_succ_le_zero n)⟩ .rfl
    | cons a items =>
      refine Hoare.bind h ?_
      rintro ⟨result, s⟩ ⟨rfl, hs⟩
      refine Hoare.bind (ih hs) ?_
      rintro ⟨result, s'⟩ ⟨rfl, hs'⟩
      exact Hoare.pure ⟨by simp, fun hle => hs' (Nat.le_of_succ_le_succ hle)⟩ .rfl

/-- A broken cursor gives no item, so it gives none out of turn. -/
theorem Broken.follows (h : Broken m J c) (items : List α) : Follows m J items c := by
  obtain ⟨B, hc, hnext⟩ := h
  cases items with
  | nil => exact Hoare.mono (hnext c hc) fun r hr => Or.inr ⟨hr.1, B, hr.2, hnext⟩
  | cons a items => exact Hoare.mono (hnext c hc) fun r hr => Or.inr ⟨hr.1, B, hr.2, hnext⟩

/-- **Reading ahead** where reads may fail gives as many items as there are, or it fails and leaves a
broken cursor. -/
theorem read_follows (n : Nat) (h : Follows m J items c) :
    ⦃J c⦄ (read n c : m _)
    ⦃⇓ r => ⌜(r.1 = .ok (items.take n, decide (items.length < n)) ∧
        (n ≤ items.length → Follows m J (items.drop n) r.2)) ∨
      (∃ e, r.1 = .error e) ∧ Broken m J r.2⌝ ∧ J r.2⦄ := by
  induction n generalizing c items with
  | zero => exact Hoare.pure (Or.inl ⟨by simp, fun _ => h⟩) .rfl
  | succ n ih =>
    cases items with
    | nil =>
      refine Hoare.bind h ?_
      rintro ⟨result, s⟩ (rfl | ⟨⟨e, rfl⟩, hbroken⟩)
      · exact Hoare.pure (Or.inl ⟨rfl, fun hle => absurd hle (Nat.not_succ_le_zero n)⟩) .rfl
      · exact Hoare.pure (Or.inr ⟨⟨e, rfl⟩, hbroken⟩) .rfl
    | cons a items =>
      refine Hoare.bind h ?_
      rintro ⟨result, s⟩ (⟨rfl, hs⟩ | ⟨⟨e, rfl⟩, hbroken⟩)
      · refine Hoare.bind (ih hs) ?_
        rintro ⟨result, s'⟩ (⟨rfl, hs'⟩ | ⟨⟨e, rfl⟩, hbroken⟩)
        · refine Hoare.pure (Or.inl ⟨by simp, fun hle => ?_⟩) .rfl
          exact hs' (Nat.le_of_succ_le_succ hle)
        · exact Hoare.pure (Or.inr ⟨⟨e, rfl⟩, hbroken⟩) .rfl
      · exact Hoare.pure (Or.inr ⟨⟨e, rfl⟩, hbroken⟩) .rfl

/-- Reading up to a number of items and closing the cursor gives as many as there are. -/
theorem collect_take {K : Assertion ps} (limit : Nat) (h : Yields m J items c)
    (hclose : ∀ s : σ, ⦃J s⦄ (close s : m _) ⦃⇓ _ => K⦄) :
    ⦃J c⦄ (collect limit c : m _) ⦃⇓ r => ⌜r.1 = .ok (items.take limit)⌝ ∧ K⦄ := by
  refine Hoare.bind (read_spec limit h) ?_
  rintro ⟨result, s⟩ ⟨rfl, -⟩
  exact Hoare.keep (hclose s) fun s' => Hoare.pure rfl .rfl

/-- **Reading to the end** gives every item. -/
theorem collect_spec {K : Assertion ps} {limit : Nat} (h : Yields m J items c)
    (hclose : ∀ s : σ, ⦃J s⦄ (close s : m _) ⦃⇓ _ => K⦄) (hlimit : items.length < limit) :
    ⦃J c⦄ (collect limit c : m _) ⦃⇓ r => ⌜r.1 = .ok items⌝ ∧ K⦄ := by
  have htake := collect_take limit h hclose
  rw [List.take_of_length_le (Nat.le_of_lt hlimit)] at htake
  exact htake

end Cursor

namespace Feed

variable {m : Type → Type} [Monad m] {ps : PostShape.{0}} [WPMonad m ps] {α : Type}
  {I : Assertion ps}

/-- A sequence in memory that does not break down yields its items. -/
theorem yields (items : List α) : Cursor.Yields m (fun _ => I) items ({ items } : Feed α) := by
  induction items with
  | nil => exact Hoare.pure rfl .rfl
  | cons a items ih => exact Hoare.pure ⟨rfl, ih⟩ .rfl

/-- The items that are read before a read fails or finds the end. -/
def given (f : Feed α) : List α :=
  match f.breaksAfter with
  | none => f.items
  | some (reads, _) => f.items.take reads

/-- A read fails before the end is found. -/
def breaks (f : Feed α) : Bool :=
  match f.breaksAfter with
  | none => false
  | some (reads, _) => decide (reads ≤ f.items.length)

theorem given_isInitial (f : Feed α) : f.given <+: f.items := by
  unfold given
  split
  · exact List.prefix_rfl
  · exact List.take_prefix _ _

/-- A sequence that does not break down before its end gives all its items. -/
theorem given_of_not_breaks {f : Feed α} (h : f.breaks = false) : f.given = f.items := by
  unfold breaks at h
  unfold given
  split at h
  · rfl
  · exact List.take_of_length_le (Nat.le_of_lt (Nat.not_le.1 (of_decide_eq_false h)))

/-- **A sequence in memory** gives the items read until it ends or breaks down. -/
theorem gives (f : Feed α) : Cursor.Gives m (fun _ => I)
    (fun result => if f.breaks = true then ∃ e, result = .error e else result = .ok none)
    f.given f := by
  obtain ⟨items, _ | ⟨reads, e⟩⟩ := f
  · exact yields items
  · induction reads generalizing items with
    | zero => exact Hoare.pure ⟨e, rfl⟩ .rfl
    | succ reads ih =>
      cases items with
      | nil => exact Hoare.pure rfl .rfl
      | cons a items =>
        have hbreaks : breaks ⟨a :: items, some (reads + 1, e)⟩ = breaks ⟨items, some (reads, e)⟩ :=
          decide_eq_decide.2 Nat.succ_le_succ_iff
        rw [hbreaks]
        exact Hoare.pure ⟨rfl, ih items⟩ .rfl

/-- A sequence that breaks down delivers the items read until then. -/
theorem delivers (items : List α) (reads : Nat) (e : Failure) :
    Cursor.Delivers m (fun _ => I) (items.take reads)
      ({ items, breaksAfter := some (reads, e) } : Feed α) :=
  Cursor.Gives.delivers (gives ⟨items, some (reads, e)⟩)

end Feed

end QuorumStore
