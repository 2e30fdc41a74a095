import Mathlib.Data.List.Forall2
import Std.Do

/-!
# Triples with facts about results

A computation that runs to its end is described by `⦃I⦄ x ⦃⇓ a => ⌜P a⌝ ∧ J a⦄`: started where `I`
holds it comes to a result `a` with `P a`, and leaves its surroundings so that `J a` holds. It does
not throw.

* `Hoare.bind`, `Hoare.pure`: one computation after another, and a result at hand.
* `Hoare.mono`, `Hoare.conseq`, `Hoare.result`, `Hoare.keep`: less is said of a result or of what is left.
* `Hoare.mapM`: a computation for each item of a list.
-/

namespace QuorumStore.Hoare

open Std.Do

variable {m : Type → Type} [Monad m] {ps : PostShape.{0}} [WPMonad m ps] {α β : Type}
  {I : Assertion ps} {J : α → Assertion ps} {P P' : α → Prop}

/-- What is known of the first result may be used of the second computation. -/
theorem bind {x : m α} {f : α → m β} {Q : PostCond β ps}
    (hx : ⦃I⦄ x ⦃⇓ a => ⌜P a⌝ ∧ J a⦄) (hf : ∀ a, P a → ⦃J a⦄ f a ⦃Q⦄) :
    ⦃I⦄ (x >>= f) ⦃Q⦄ := by
  refine Triple.bind x f (Q := fun a => spred(⌜P a⌝ ∧ J a)) ?_ fun a => ?_
  · exact Triple.entails_wp_of_post hx ⟨fun _ => .rfl, ExceptConds.entails_false⟩
  · exact SPred.pure_elim_l (hf a)

theorem pure {a : α} (h : P a) (hI : I ⊢ₛ J a) :
    ⦃I⦄ (Pure.pure a : m α) ⦃⇓ a => ⌜P a⌝ ∧ J a⦄ :=
  Triple.pure a (SPred.and_intro (SPred.pure_intro h) hI)

theorem mono {x : m α} (hx : ⦃I⦄ x ⦃⇓ a => ⌜P a⌝ ∧ J a⦄) (h : ∀ a, P a → P' a) :
    ⦃I⦄ x ⦃⇓ a => ⌜P' a⌝ ∧ J a⦄ :=
  Triple.entails_wp_of_post hx
    ⟨fun a => SPred.and_mono_l (SPred.pure_mono (h a)), ExceptConds.entails_false⟩

/-- What is known of the result may say more of what is left. -/
theorem conseq {x : m α} {J' : α → Assertion ps} (hx : ⦃I⦄ x ⦃⇓ a => ⌜P a⌝ ∧ J a⦄)
    (h : ∀ a, P a → P' a ∧ (J a ⊢ₛ J' a)) : ⦃I⦄ x ⦃⇓ a => ⌜P' a⌝ ∧ J' a⦄ := by
  refine Triple.entails_wp_of_post hx ⟨fun a => ?_, ExceptConds.entails_false⟩
  exact SPred.pure_elim_l fun ha => SPred.and_intro (SPred.pure_intro (h a ha).1) (h a ha).2

theorem result {x : m α} (hx : ⦃I⦄ x ⦃⇓ a => ⌜P a⌝ ∧ J a⦄) : ⦃I⦄ x ⦃⇓ a => ⌜P a⌝⦄ :=
  Triple.entails_wp_of_post hx ⟨fun _ => SPred.and_elim_l, ExceptConds.entails_false⟩

/-- A computation of which only its effect matters, before another. -/
theorem keep {x : m α} {f : α → m β} {K : Assertion ps} {Q : PostCond β ps}
    (hx : ⦃I⦄ x ⦃⇓ _ => K⦄) (hf : ∀ a, ⦃K⦄ f a ⦃Q⦄) : ⦃I⦄ (x >>= f) ⦃Q⦄ :=
  Triple.bind x f
    (Triple.entails_wp_of_post hx ⟨fun _ => .rfl, ExceptConds.entails_false⟩) hf

/-- One computation after another for the items of a list, each with its own result. -/
theorem mapM {ι : Type} {R : ι → α → Prop} {f : ι → m α} {l : List ι}
    (hf : ∀ i ∈ l, ⦃I⦄ f i ⦃⇓ a => ⌜R i a⌝ ∧ I⦄) :
    ⦃I⦄ (l.mapM f) ⦃⇓ as => ⌜List.Forall₂ R l as⌝ ∧ I⦄ := by
  induction l with
  | nil =>
    rw [List.mapM_nil]
    exact pure .nil .rfl
  | cons i l ih =>
    rw [List.mapM_cons]
    refine bind (hf i List.mem_cons_self) fun a ha => ?_
    refine bind (ih fun j hj => hf j (List.mem_cons_of_mem _ hj)) fun as has => ?_
    exact pure (.cons ha has) .rfl

end QuorumStore.Hoare
