import Mathlib.Data.List.Basic

/-!
# Sorted lists

A predicate that holds on a prefix of a list is searched for with `takeWhile` and `dropWhile`; a
greatest element is found with `getLast?`. These lemmas give what the searches find.

* `takeWhile_eq_filter`, `dropWhile_eq_filter`: the two parts of the list, by their members.
* `mem_takeWhile_iff`, `mem_dropWhile_iff`: searching for the end of a prefix.
* `getLast?_eq_some_iff_greatest`: the last element of a list that strictly ascends.
-/

namespace QuorumStore

variable {α : Type} {p : α → Bool} {l : List α}

/-- Where a predicate once lost stays lost, `takeWhile` is `filter`. -/
theorem takeWhile_eq_filter (hmono : l.Pairwise fun a b => p b = true → p a = true) :
    l.takeWhile p = l.filter p := by
  induction l with
  | nil => rfl
  | cons a l ih =>
    obtain ⟨ha, hl⟩ := List.pairwise_cons.1 hmono
    by_cases hpa : p a = true
    · rw [List.takeWhile_cons_of_pos hpa, List.filter_cons_of_pos hpa, ih hl]
    · have hnone : ∀ b ∈ a :: l, ¬ p b = true := by
        intro b hb hpb
        rcases List.mem_cons.1 hb with rfl | hb
        · exact hpa hpb
        · exact hpa (ha b hb hpb)
      rw [List.takeWhile_cons_of_neg hpa, List.filter_eq_nil_iff.2 hnone]

/-- Where a predicate once lost stays lost, `dropWhile` keeps what `filter` leaves out. -/
theorem dropWhile_eq_filter (hmono : l.Pairwise fun a b => p b = true → p a = true) :
    l.dropWhile p = l.filter fun a => !p a := by
  induction l with
  | nil => rfl
  | cons a l ih =>
    obtain ⟨ha, hl⟩ := List.pairwise_cons.1 hmono
    by_cases hpa : p a = true
    · rw [List.dropWhile_cons_of_pos hpa, List.filter_cons_of_neg (by simpa using hpa), ih hl]
    · have hall : ∀ b ∈ a :: l, (!p b) = true := by
        intro b hb
        rcases List.mem_cons.1 hb with rfl | hb
        · simpa using hpa
        · simpa using fun hpb => hpa (ha b hb hpb)
      rw [List.dropWhile_cons_of_neg hpa, List.filter_eq_self.2 hall]

/-- Where a predicate once lost stays lost, `takeWhile` keeps exactly what satisfies it. -/
theorem mem_takeWhile_iff (hmono : l.Pairwise fun a b => p b = true → p a = true) {x : α} :
    x ∈ l.takeWhile p ↔ x ∈ l ∧ p x = true := by
  rw [takeWhile_eq_filter hmono, List.mem_filter]

/-- Where a predicate once lost stays lost, `dropWhile` keeps exactly what does not satisfy it. -/
theorem mem_dropWhile_iff (hmono : l.Pairwise fun a b => p b = true → p a = true) {x : α} :
    x ∈ l.dropWhile p ↔ x ∈ l ∧ p x = false := by
  rw [dropWhile_eq_filter hmono, List.mem_filter, Bool.not_eq_true']

/-- The last element of a list that strictly ascends is the greatest. -/
theorem getLast?_eq_some_iff_greatest (lt : α → α → Prop) (hirrefl : ∀ a, ¬ lt a a)
    (htrans : ∀ a b c, lt a b → lt b c → lt a c) (hsorted : l.Pairwise lt) {x : α} :
    l.getLast? = some x ↔ x ∈ l ∧ ∀ y ∈ l, y = x ∨ lt y x := by
  rw [List.getLast?_eq_some_iff]
  constructor
  · rintro ⟨init, rfl⟩
    refine ⟨by simp, fun y hy => ?_⟩
    rcases List.mem_append.1 hy with hy | hy
    · exact Or.inr ((List.pairwise_append.1 hsorted).2.2 y hy x List.mem_cons_self)
    · exact Or.inl (List.mem_singleton.1 hy)
  · rintro ⟨hx, hgreatest⟩
    obtain ⟨init, rest, rfl⟩ := List.append_of_mem hx
    cases rest with
    | nil => exact ⟨init, rfl⟩
    | cons y rest =>
      have hxy : lt x y :=
        (List.pairwise_cons.1 (List.pairwise_append.1 hsorted).2.1).1 y List.mem_cons_self
      rcases hgreatest y (by simp) with rfl | hyx
      · exact absurd hxy (hirrefl y)
      · exact absurd (htrans _ _ _ hxy hyx) (hirrefl x)

end QuorumStore
