import QuorumStore.Proofs.Ring.Walk

/-!
# One more token on a ring

A token of an endpoint that has none yet takes the rows from itself up to the next token around the ring
from the token before, and all others keep theirs. Each walk around the ring then meets the endpoint
somewhere, and the token before at its end if it began there, so that of the endpoints it found without
the token it may miss the last one.

* `Ring.add`, `Ring.of?_append`: a ring with one more token.
* `Ring.IsNext`, `Ring.InSegment`: the next token around the ring, and the rows up to there.
* `Ring.Sooner`, `Sooner.subset`, `Sooner.lost`: of two walks one meets all but one endpoint sooner.
* `Ring.exists_walks`: the walks for a row without and with the token.
* `Ring.added`: **one more token moves the rows up to the next one**, and a row gives up at most one of
  its replicas for the new endpoint.
-/

namespace QuorumStore

open Std

namespace Ring

open RingLayout

section Sooner

variable {x y : ReplicaId} {n : Nat} {walk walk' : List ReplicaId}

/-- On `walk` every endpoint of `walk'` but `x` is met after no more distinct others than on `walk'`. -/
def Sooner (x : ReplicaId) (walk walk' : List ReplicaId) : Prop :=
  ∀ y ≠ x, ∀ before' after', walk' = before' ++ y :: after' → y ∉ before' →
    ∃ before after, walk = before ++ y :: after ∧ y ∉ before ∧
      before.toFinset.card ≤ before'.toFinset.card

theorem card_toFinset_le {l l' : List ReplicaId} (hsub : l ⊆ l') :
    l.toFinset.card ≤ l'.toFinset.card := by
  refine Finset.card_le_card fun id hid => ?_
  rw [List.mem_toFinset] at hid ⊢
  exact hsub hid

/-- Whether an endpoint is among the first distinct ones depends on how many there are before it. -/
theorem mem_take_eraseDups_iff {before after : List ReplicaId} (hnew : y ∉ before) :
    y ∈ (before ++ y :: after).eraseDups.take n ↔ before.toFinset.card < n := by
  have hmem : y ∉ before.eraseDups := fun hy => hnew (List.mem_eraseDups.1 hy)
  have hkept : (before.contains y) = false := by simpa using hnew
  rw [List.eraseDups_append, List.cons_removeAll, if_pos hkept, List.eraseDups_cons,
    ← length_eraseDups, List.take_append, List.mem_append]
  constructor
  · rintro (hy | hy)
    · exact absurd (List.mem_of_mem_take hy) hmem
    · by_contra hle
      rw [Nat.sub_eq_zero_of_le (Nat.le_of_not_lt hle)] at hy
      cases hy
  · intro hlt
    obtain ⟨k, hk⟩ := Nat.exists_eq_succ_of_ne_zero (Nat.sub_ne_zero_of_lt hlt)
    rw [hk]
    exact Or.inr List.mem_cons_self

namespace Sooner

/-- Of the first distinct endpoints none but `x` comes in. -/
theorem subset (h : Sooner x walk walk') (hy : y ∈ walk'.eraseDups.take n) :
    y ∈ walk.eraseDups.take n ∨ y = x := by
  by_cases hyx : y = x
  · exact Or.inr hyx
  · obtain ⟨before', after', rfl, hnew'⟩ :=
      List.eq_append_cons_of_mem (List.mem_eraseDups.1 (List.mem_of_mem_take hy))
    obtain ⟨before, after, rfl, hnew, hle⟩ := h y hyx before' after' rfl hnew'
    rw [mem_take_eraseDups_iff hnew'] at hy
    exact Or.inl ((mem_take_eraseDups_iff hnew).2 (Nat.lt_of_le_of_lt hle hy))

/-- Of the first distinct endpoints at most one goes out. -/
theorem lost (h : Sooner x walk walk') (hsub : walk ⊆ walk') {a b : ReplicaId}
    (ha : a ∈ walk.eraseDups.take n) (hb : b ∈ walk.eraseDups.take n)
    (ha' : a ∉ walk'.eraseDups.take n) (hb' : b ∉ walk'.eraseDups.take n) : a = b := by
  by_contra hab
  have hcard : ∀ l : List ReplicaId,
      (l.eraseDups.take n).toFinset.card = min n l.toFinset.card := fun l => by
    rw [List.toFinset_card_of_nodup ((nodup_eraseDups l).take), List.length_take, length_eraseDups]
  -- with two fewer and one more there would be fewer in all
  have hle : (walk'.eraseDups.take n).toFinset ⊆
      insert x (((walk.eraseDups.take n).toFinset.erase a).erase b) := by
    intro y hy
    rw [List.mem_toFinset] at hy
    rw [Finset.mem_insert, Finset.mem_erase, Finset.mem_erase, List.mem_toFinset]
    refine (h.subset hy).symm.imp_right fun hold => ⟨?_, ?_, hold⟩
    · rintro rfl
      exact hb' hy
    · rintro rfl
      exact ha' hy
  have hafter := (Finset.card_le_card hle).trans (Finset.card_insert_le _ _)
  have hbmem : b ∈ (walk.eraseDups.take n).toFinset.erase a :=
    Finset.mem_erase.2 ⟨fun hba => hab hba.symm, List.mem_toFinset.2 hb⟩
  have hamem : a ∈ (walk.eraseDups.take n).toFinset := List.mem_toFinset.2 ha
  have hfirst := Finset.card_erase_add_one hbmem
  have hsecond := Finset.card_erase_add_one hamem
  have hmore := card_toFinset_le hsub
  rw [hcard] at hafter hsecond
  omega

/-- A walk meets all others sooner than one that meets `x` on its way. -/
theorem insert (front back : List ReplicaId) : Sooner x (front ++ back) (front ++ x :: back) := by
  intro y hyx before' after' hsplit hnew'
  rcases List.append_eq_append_iff.1 hsplit with ⟨rest, rfl, hrest⟩ | ⟨rest, rfl, hrest⟩
  · -- the endpoint is met after `x`
    rcases List.cons_eq_append_iff.1 hrest with ⟨rfl, heq⟩ | ⟨rest', rfl, rfl⟩
    · exact absurd (List.cons.inj heq).1 hyx
    · have hsub : front ++ rest' ⊆ front ++ x :: rest' :=
        (List.Sublist.append_left (List.sublist_cons_self x rest') front).subset
      exact ⟨front ++ rest', after', (List.append_assoc ..).symm, fun hy => hnew' (hsub hy),
        card_toFinset_le hsub⟩
  · -- or before it
    rcases List.cons_eq_append_iff.1 hrest with ⟨rfl, heq⟩ | ⟨rest', rfl, rfl⟩
    · exact absurd (List.cons.inj heq).1.symm hyx
    · exact ⟨before', rest' ++ back, by rw [List.append_assoc]; rfl, hnew', Nat.le_refl _⟩

/-- A walk meets all others sooner than one that begins with `x` and ends with its first endpoint. -/
theorem ofFirst (e : ReplicaId) {others : List ReplicaId} (hx : x ∉ others) :
    Sooner x (e :: others) (x :: others ++ [e]) := by
  intro y hyx before' after' hsplit hnew'
  by_cases hye : y = e
  · rw [hye]
    exact ⟨[], others, rfl, List.not_mem_nil, Nat.zero_le _⟩
  · rw [List.cons_append] at hsplit
    rcases List.cons_eq_append_iff.1 hsplit with ⟨rfl, heq⟩ | ⟨before, rfl, heq⟩
    · exact absurd (List.cons.inj heq).1 hyx
    · rcases List.append_eq_append_iff.1 heq with ⟨rest, rfl, hrest⟩ | ⟨rest, rfl, hrest⟩
      · have hy : y ∈ [e] := by rw [hrest]; simp
        exact absurd (List.mem_singleton.1 hy) hye
      · rcases List.cons_eq_append_iff.1 hrest with ⟨rfl, heq⟩ | ⟨rest', rfl, -⟩
        · exact absurd (List.cons.inj hrest).1 hye
        · refine ⟨e :: before, rest', rfl, fun hy => ?_, ?_⟩
          · rcases List.mem_cons.1 hy with hy | hy
            · exact hye hy
            · exact hnew' (List.mem_cons_of_mem x hy)
          · have hxbefore : x ∉ before.toFinset := fun hmem =>
              hx (List.mem_append_left _ (List.mem_toFinset.1 hmem))
            rw [List.toFinset_cons, List.toFinset_cons, Finset.card_insert_of_notMem hxbefore]
            exact Finset.card_insert_le _ _

end Sooner

end Sooner

/-- The rows from a token up to the next one around the ring. -/
def InSegment (t next row : Bytes) : Prop :=
  if t < next then t ≤ row ∧ row < next else t ≤ row ∨ row < next

variable {r : Ring} {t row o : Bytes} {x : ReplicaId}

/-- The ring with one more token. -/
def add (r : Ring) (t : Bytes) (x : ReplicaId) : Ring := { r with tokens := r.tokens.insert t x }

/-- A ring built with one more token at the end. -/
theorem of?_append (version : UInt64) (replication : Nat) (tokens : List (Bytes × ReplicaId))
    (t : Bytes) (x : ReplicaId) : RingLayout.of? version replication (tokens ++ [(t, x)]) =
      (RingLayout.of? version replication tokens).map
        fun r => { r with tokens := r.tokens.insert t x } := by
  unfold RingLayout.of?
  split
  · rfl
  · rw [ExtTreeMap.ofList_eq_insertMany_empty, ExtTreeMap.insertMany_append,
      ExtTreeMap.insertMany_list_singleton, ← ExtTreeMap.ofList_eq_insertMany_empty]
    rfl

/-- The next token around the ring after one of them: the least one above, or the least of all. -/
def IsNext (r : Ring) (t next : Bytes) : Prop :=
  next ∈ r.tokens ∧
    ((t < next ∧ ∀ s ∈ r.tokens, t < s → next ≤ s) ∨
      ((∀ s ∈ r.tokens, s ≤ t) ∧ ∀ s ∈ r.tokens, next ≤ s))

theorem mem_add {s : Bytes} : s ∈ (r.add t x).tokens ↔ s = t ∨ s ∈ r.tokens := by
  unfold add
  rw [ExtTreeMap.mem_insert, LawfulEqOrd.compare_eq_iff_eq]
  exact or_congr_left eq_comm

theorem getElem?_add {s : Bytes} :
    (r.add t x).tokens[s]? = if t = s then some x else r.tokens[s]? := by
  unfold add
  simp only [ExtTreeMap.getElem?_insert, LawfulEqOrd.compare_eq_iff_eq]

/-- The entries with the token are those without it, and one between. -/
theorem exists_entries_add (hnew : t ∉ r.tokens) (x : ReplicaId) : ∃ before after,
    (r.add t x).tokens.toList = before ++ (t, x) :: after ∧ r.tokens.toList = before ++ after ∧
      (∀ s ∈ before, s.1 < t) ∧ ∀ s ∈ after, t < s.1 := by
  have hself : (r.add t x).tokens[t]? = some x := by rw [getElem?_add, if_pos rfl]
  obtain ⟨before, after, hsplit, hbefore, hafter⟩ := exists_entries hself
  refine ⟨before, after, hsplit, ?_, hbefore, hafter⟩
  have hsorted := (r.add t x).toList_pairwise
  have hsorted' : (before ++ after).Pairwise fun a b => a.1 < b.1 := by
    rw [hsplit] at hsorted
    exact hsorted.sublist (List.Sublist.append_left (List.sublist_cons_self _ _) before)
  have hnodup : ∀ {l : List (Bytes × ReplicaId)}, l.Pairwise (fun a b => a.1 < b.1) → l.Nodup :=
    fun h => h.imp fun {a b} hab heq => by
      rw [heq] at hab
      exact List.lt_irrefl _ hab
  refine List.Perm.eq_of_pairwise (fun a b _ _ hab hba => ?_) r.toList_pairwise hsorted'
    ((List.perm_ext_iff_of_nodup (hnodup r.toList_pairwise) (hnodup hsorted')).2 fun entry => ?_)
  · exact absurd (List.lt_trans hab hba) (List.lt_irrefl _)
  · obtain ⟨s, id⟩ := entry
    have hmem := ExtTreeMap.mem_toList_iff_getElem?_eq_some (t := (r.add t x).tokens) (k := s) (v := id)
    rw [hsplit, getElem?_add] at hmem
    rw [ExtTreeMap.mem_toList_iff_getElem?_eq_some]
    by_cases hs : t = s
    · subst hs
      rw [ExtTreeMap.getElem?_eq_none hnew]
      refine iff_of_false (by simp) fun h => ?_
      rcases List.mem_append.1 h with h | h
      · exact absurd (hbefore _ h) (List.lt_irrefl _)
      · exact absurd (hafter _ h) (List.lt_irrefl _)
    · rw [if_neg hs] at hmem
      rw [← hmem, List.mem_append, List.mem_append, List.mem_cons]
      exact or_congr_right (or_iff_right fun heq => hs (Prod.mk.inj heq).1.symm)

/-- What holds of the tokens of all entries holds of all tokens. -/
theorem forall_tokens {P : Bytes → Prop} {entries : List (Bytes × ReplicaId)}
    (hsplit : r.tokens.toList = entries) (h : ∀ e ∈ entries, P e.1) : ∀ s ∈ r.tokens, P s := by
  intro s hs
  rw [← ExtTreeMap.mem_keys, ← ExtTreeMap.map_fst_toList_eq_keys, hsplit] at hs
  obtain ⟨e, he, rfl⟩ := List.mem_map.1 hs
  exact h e he

theorem mem_tokens_of_mem {e : Bytes × ReplicaId} (he : e ∈ r.tokens.toList) : e.1 ∈ r.tokens := by
  rw [← ExtTreeMap.mem_keys, ← ExtTreeMap.map_fst_toList_eq_keys]
  exact List.mem_map_of_mem he

/-- In a list of entries that ascend the first one is the least. -/
theorem first_le {e : Bytes × ReplicaId} {rest : List (Bytes × ReplicaId)}
    (hsorted : (e :: rest).Pairwise fun a b => a.1 < b.1) : ∀ s ∈ e :: rest, e.1 ≤ s.1 := by
  intro s hs
  rcases List.mem_cons.1 hs with rfl | hs
  · exact List.le_refl _
  · exact List.le_of_lt ((List.pairwise_cons.1 hsorted).1 s hs)

/-- In a list of entries that ascend the last one is the greatest. -/
theorem le_last {e : Bytes × ReplicaId} {front : List (Bytes × ReplicaId)}
    (hlow : ∀ s ∈ front, s.1 < e.1) : ∀ s ∈ front ++ [e], s.1 ≤ e.1 := by
  intro s hs
  rcases List.mem_append.1 hs with hs | hs
  · exact List.le_of_lt (hlow s hs)
  · rw [List.mem_singleton.1 hs]
    exact List.le_refl _

/-- There is a next token. -/
theorem exists_isNext (hnew : t ∉ r.tokens) (x : ReplicaId) : ∃ next, (r.add t x).IsNext t next := by
  obtain ⟨before, after, hsplit, -, hbefore, hafter⟩ := exists_entries_add hnew x
  have hsorted := (r.add t x).toList_pairwise
  rw [hsplit] at hsorted
  cases after with
  | cons e after =>
    -- the least of those above
    have hmem : e ∈ (r.add t x).tokens.toList := hsplit ▸ by simp
    have hleast := first_le (List.pairwise_cons.1 (List.pairwise_append.1 hsorted).2.1).2
    refine ⟨e.1, mem_tokens_of_mem hmem, Or.inl ⟨hafter e List.mem_cons_self, ?_⟩⟩
    refine forall_tokens hsplit fun s hs hlt => ?_
    rcases List.mem_append.1 hs with hlow | hhigh
    · exact absurd (List.lt_trans hlt (hbefore s hlow)) (List.lt_irrefl _)
    · rcases List.mem_cons.1 hhigh with rfl | hhigh
      · exact absurd hlt (List.lt_irrefl _)
      · exact hleast s hhigh
  | nil =>
    -- or the least of all
    obtain ⟨e, rest, hfirst⟩ : ∃ e rest, before ++ [(t, x)] = e :: rest :=
      List.exists_cons_of_ne_nil (by simp)
    have hmem : e ∈ (r.add t x).tokens.toList := by
      rw [hsplit, hfirst]
      exact List.mem_cons_self
    refine ⟨e.1, mem_tokens_of_mem hmem, Or.inr ⟨forall_tokens hsplit (le_last hbefore), ?_⟩⟩
    rw [hfirst] at hsplit hsorted
    exact forall_tokens hsplit (first_le hsorted)

/-- The rows of a token are those up to the next one. -/
theorem owns_iff_inSegment {next : Bytes} (ht : t ∈ r.tokens) (hnext : r.IsNext t next) :
    r.Owns t row ↔ InSegment t next row := by
  obtain ⟨hmem, ⟨hlt, hleast⟩ | ⟨hgreatest, hleast⟩⟩ := hnext
  · unfold InSegment
    rw [if_pos hlt]
    constructor
    · rintro ⟨-, ⟨hle, hrow⟩ | hall⟩
      · refine ⟨hle, List.not_le.1 fun hnext => ?_⟩
        exact List.not_lt.2 (hrow next hmem hnext) hlt
      · exact absurd hlt (List.not_lt.2 (hall next hmem).2)
    · rintro ⟨hle, hrow⟩
      refine ⟨ht, Or.inl ⟨hle, fun s hs hsrow => List.not_lt.1 fun hts => ?_⟩⟩
      exact List.not_lt.2 (List.le_trans (hleast s hs hts) hsrow) hrow
  · unfold InSegment
    rw [if_neg (List.not_lt.2 (hgreatest next hmem))]
    constructor
    · rintro ⟨-, ⟨hle, -⟩ | hall⟩
      · exact Or.inl hle
      · exact Or.inr (hall next hmem).1
    · rintro (hle | hrow)
      · exact ⟨ht, Or.inl ⟨hle, fun s hs _ => hgreatest s hs⟩⟩
      · refine ⟨ht, Or.inr fun s hs => ⟨?_, hgreatest s hs⟩⟩
        exact List.not_le.1 fun hle => List.not_lt.2 (List.le_trans (hleast s hs) hle) hrow

/-- A row that the new token does not get stays where it was. -/
theorem ownerToken_add (hne : (r.add t x).ownerToken row ≠ some t) :
    (r.add t x).ownerToken row = r.ownerToken row := by
  have ht : t ∈ (r.add t x).tokens := mem_add.2 (Or.inl rfl)
  obtain ⟨o, ho⟩ := exists_ownerToken (fun hempty => by rw [hempty] at ht; simp at ht) row
  rw [ho, eq_comm, ownerToken_eq_some_iff]
  obtain ⟨hmem, howns⟩ := ownerToken_eq_some_iff.1 ho
  have hold : o ∈ r.tokens := (mem_add.1 hmem).resolve_left fun h => hne (h ▸ ho)
  refine ⟨hold, howns.imp (fun h => ⟨h.1, fun s hs => h.2 s (mem_add.2 (Or.inr hs))⟩) fun h s hs => ?_⟩
  exact h s (mem_add.2 (Or.inr hs))

/-- What is clockwise from a token: the entries from there on, and then the others. -/
theorem clockwise_eq_filter (r : Ring) (o : Bytes) : r.clockwise o =
    ((r.tokens.toList.filter fun e => !decide (e.1 < o)) ++
      r.tokens.toList.filter fun e => decide (e.1 < o)).map Prod.snd := by
  have hmono : r.tokens.toList.Pairwise fun a b =>
      decide (b.1 < o) = true → decide (a.1 < o) = true :=
    r.toList_pairwise.imp fun hab hb => decide_eq_true (List.lt_trans hab (of_decide_eq_true hb))
  unfold clockwise
  dsimp only
  rw [takeWhile_eq_filter hmono, dropWhile_eq_filter hmono]

/-- On a walk from elsewhere the new token is met somewhere. -/
theorem clockwise_add (hnew : t ∉ r.tokens) (x : ReplicaId) (o : Bytes) : ∃ front back,
    r.clockwise o = front ++ back ∧ (r.add t x).clockwise o = front ++ x :: back := by
  obtain ⟨before, after, hsplit, hsplit', -, -⟩ := exists_entries_add hnew x
  rw [clockwise_eq_filter, clockwise_eq_filter, hsplit, hsplit']
  by_cases hlt : t < o
  · refine ⟨((before ++ after).filter (fun e => !decide (e.1 < o)) ++
      before.filter fun e => decide (e.1 < o)).map Prod.snd,
      (after.filter fun e => decide (e.1 < o)).map Prod.snd, ?_, ?_⟩
    · simp
    · simp [hlt]
  · refine ⟨(before.filter fun e => !decide (e.1 < o)).map Prod.snd,
      (after.filter (fun e => !decide (e.1 < o)) ++
        (before ++ after).filter fun e => decide (e.1 < o)).map Prod.snd, ?_, ?_⟩
    · simp
    · simp [hlt]

/-- Where the new token gets a row, the walk without it began at the token before, which comes last on the
walk from the new one. -/
theorem exists_before (htaken : (r.add t x).Owns t row) (hne : r.tokens ≠ ∅)
    {before after : List (Bytes × ReplicaId)} (hsplit : r.tokens.toList = before ++ after)
    (hbefore : ∀ s ∈ before, s.1 < t) (hafter : ∀ s ∈ after, t < s.1) : ∃ o e others,
      after ++ before = others ++ [(o, e)] ∧ r.ownerToken row = some o ∧
        r.clockwise o = e :: others.map Prod.snd := by
  have hsorted := r.toList_pairwise
  have hold : ∀ s ∈ r.tokens, s ∈ (r.add t x).tokens := fun s hs => mem_add.2 (Or.inr hs)
  rw [hsplit] at hsorted
  rcases List.eq_nil_or_concat' before with rfl | ⟨front, ⟨o, e⟩, rfl⟩
  · rcases List.eq_nil_or_concat' after with rfl | ⟨front, ⟨o, e⟩, rfl⟩
    · -- there is no other token
      have hnone := forall_tokens (P := fun _ => False) hsplit fun _ h => List.not_mem_nil h
      exact absurd (ExtTreeMap.eq_empty_iff_forall_not_mem.2 hnone) hne
    · -- the token is the first one, and the last one comes before it
      rw [List.nil_append] at hsplit hsorted
      have hlow : ∀ s ∈ front, s.1 < o := fun s hs =>
        (List.pairwise_append.1 hsorted).2.2 s hs _ (List.mem_singleton_self _)
      have ho : o ∈ r.tokens := mem_tokens_of_mem (e := (o, e)) (hsplit ▸ by simp)
      have habove : ∀ s ∈ r.tokens, t < s := forall_tokens hsplit hafter
      have hgreatest : ∀ s ∈ r.tokens, s ≤ o := forall_tokens hsplit (le_last hlow)
      refine ⟨o, e, front, List.append_nil _, ownerToken_eq_some_iff.2 ⟨ho, ?_⟩, ?_⟩
      · obtain ⟨-, ⟨-, hbelow⟩ | hall⟩ := htaken
        · refine Or.inr fun s hs => ⟨List.not_le.1 fun hle => ?_, hgreatest s hs⟩
          exact List.not_lt.2 (hbelow s (hold s hs) hle) (habove s hs)
        · exact absurd (habove o ho) (List.not_lt.2 (hall o (hold o ho)).2)
      · rw [clockwise_of_entries hsplit hlow, List.nil_append]
  · -- the token comes right after another one
    have hlow : ∀ s ∈ front, s.1 < o := fun s hs =>
      (List.pairwise_append.1 (List.pairwise_append.1 hsorted).1).2.2 s hs _ (List.mem_singleton_self _)
    have ho : o ∈ r.tokens := mem_tokens_of_mem (e := (o, e)) (hsplit ▸ by simp)
    have hot : o < t := hbefore (o, e) (by simp)
    have hbelow : ∀ s ∈ r.tokens, s ≤ t → s ≤ o := forall_tokens hsplit fun s hs hle => by
      rcases List.mem_append.1 hs with hs | hs
      · exact le_last hlow s hs
      · exact absurd (hafter s hs) (List.not_lt.2 hle)
    refine ⟨o, e, after ++ front, (List.append_assoc ..).symm,
      ownerToken_eq_some_iff.2 ⟨ho, htaken.2.imp ?_ ?_⟩, ?_⟩
    · rintro ⟨hle, hgreatest⟩
      exact ⟨List.le_trans (List.le_of_lt hot) hle, fun s hs hsrow =>
        hbelow s hs (hgreatest s (hold s hs) hsrow)⟩
    · intro hall s hs
      obtain ⟨hrow, hle⟩ := hall s (hold s hs)
      exact ⟨hrow, hbelow s hs hle⟩
    · rw [List.append_assoc] at hsplit
      exact clockwise_of_entries hsplit hlow

/-- **The walks for a row**, without the new token and with it. -/
theorem exists_walks (hnew : t ∉ r.tokens) (hx : ∀ s : Bytes, r.tokens[s]? ≠ some x) (row : Bytes) :
    ∃ walk walk', r.replicasOf row = walk.eraseDups.take r.replication ∧
      (r.add t x).replicasOf row = walk'.eraseDups.take r.replication ∧
      Sooner x walk walk' ∧ walk ⊆ walk' := by
  by_cases htaken : (r.add t x).ownerToken row = some t
  case neg =>
    have ht : t ∈ (r.add t x).tokens := mem_add.2 (Or.inl rfl)
    obtain ⟨o, ho⟩ := exists_ownerToken (ExtTreeMap.ne_empty_of_mem ht) row
    obtain ⟨front, back, hwalk, hwalk'⟩ := clockwise_add hnew x o
    refine ⟨_, _, replicasOf_of_ownerToken (ownerToken_add htaken ▸ ho), replicasOf_of_ownerToken ho, ?_⟩
    rw [hwalk, hwalk']
    exact ⟨.insert front back, (List.Sublist.append_left (List.sublist_cons_self x back) front).subset⟩
  case pos =>
    obtain ⟨before, after, hsplit, hsplit', hbefore, hafter⟩ := exists_entries_add hnew x
    have hwalk' := clockwise_of_entries hsplit hbefore
    by_cases hempty : r.tokens = ∅
    · have hnil : r.replicasOf row = ([] : List ReplicaId).eraseDups.take r.replication := by
        rw [replicasOf_of_empty hempty, List.eraseDups_nil, List.take_nil]
      refine ⟨[], _, hnil, replicasOf_of_ownerToken htaken, ?_, List.nil_subset _⟩
      have hnone : before ++ after = [] := by
        rw [← hsplit', hempty]
        rfl
      obtain ⟨rfl, rfl⟩ := List.append_eq_nil_iff.1 hnone
      rw [hwalk']
      exact .insert [] []
    · obtain ⟨o, e, others, hothers, ho, hwalk⟩ :=
        exists_before (ownerToken_eq_some_iff.1 htaken) hempty hsplit' hbefore hafter
      refine ⟨_, _, replicasOf_of_ownerToken ho, replicasOf_of_ownerToken htaken, ?_⟩
      rw [hwalk, hwalk', hothers, List.map_append]
      refine ⟨.ofFirst e fun hmem => ?_, ?_⟩
      · obtain ⟨⟨s, id⟩, hs, rfl⟩ := List.mem_map.1 hmem
        refine hx s (ExtTreeMap.mem_toList_iff_getElem?_eq_some.1 ?_)
        have hentry : (s, id) ∈ after ++ before := hothers ▸ List.mem_append_left _ hs
        rw [hsplit']
        exact List.mem_append.2 (List.mem_append.1 hentry).symm
      · intro id hid
        rcases List.mem_cons.1 hid with rfl | hid
        · simp
        · exact List.mem_cons_of_mem x (List.mem_append_left _ hid)

/-- What one more token changes of where a ring places rows. -/
structure Added (r : Ring) (t : Bytes) (x : ReplicaId) (next : Bytes) : Prop where
  isNext : (r.add t x).IsNext t next
  /-- The rows of the segment change their token, and no others. -/
  moved : ∀ row, (r.add t x).ownerToken row ≠ r.ownerToken row ↔ InSegment t next row
  taken : ∀ row, InSegment t next row → (r.add t x).ownerToken row = some t
  /-- No replica of a row is new but the endpoint, and at most one is missing. -/
  subset : ∀ row, ∀ id ∈ (r.add t x).replicasOf row, id ∈ r.replicasOf row ∨ id = x
  lost : ∀ row, ∀ a ∈ r.replicasOf row, ∀ b ∈ r.replicasOf row,
    a ∉ (r.add t x).replicasOf row → b ∉ (r.add t x).replicasOf row → a = b

/-- **One more token, of an endpoint that has none, moves the rows up to the next token**, and a row gives
up at most one of its replicas for the endpoint. -/
theorem added (hnew : t ∉ r.tokens) (hx : ∀ s : Bytes, r.tokens[s]? ≠ some x) : ∃ next, r.Added t x next := by
  obtain ⟨next, hnext⟩ := exists_isNext hnew x
  have ht : t ∈ (r.add t x).tokens := mem_add.2 (Or.inl rfl)
  have htaken : ∀ row, (r.add t x).ownerToken row = some t ↔ InSegment t next row := fun row =>
    ownerToken_eq_some_iff.trans (owns_iff_inSegment ht hnext)
  refine ⟨next, hnext, fun row => ⟨fun hne => ?_, fun hrow heq => ?_⟩, fun row => (htaken row).2,
    fun row id hid => ?_, fun row a ha b hb ha' hb' => ?_⟩
  · by_contra hrow
    exact hne (ownerToken_add fun h => hrow ((htaken row).1 h))
  · rw [(htaken row).2 hrow] at heq
    exact hnew (ownerToken_eq_some_iff.1 heq.symm).1
  · obtain ⟨walk, walk', hwalk, hwalk', hsooner, -⟩ := exists_walks hnew hx row
    rw [hwalk'] at hid
    rw [hwalk]
    exact hsooner.subset hid
  · obtain ⟨walk, walk', hwalk, hwalk', hsooner, hsub⟩ := exists_walks hnew hx row
    rw [hwalk] at ha hb
    rw [hwalk'] at ha' hb'
    exact hsooner.lost hsub ha hb ha' hb'

/-- A third endpoint between the tokens of two others. -/
theorem added_threeTokens : [96] ∉ threeTokens.tokens ∧
    (∀ s : Bytes, threeTokens.tokens[s]? ≠ some "c") ∧ ∃ next, threeTokens.Added [96] "c" next :=
  have hnew : [96] ∉ threeTokens.tokens := by decide
  have hx : ∀ s : Bytes, threeTokens.tokens[s]? ≠ some "c" := fun s hs => by
    have hmem : "c" ∈ threeTokens.tokens.values := mem_values_iff.2 ⟨s, hs⟩
    revert hmem
    decide
  ⟨hnew, hx, added hnew hx⟩

end Ring

end QuorumStore
