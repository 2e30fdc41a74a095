import QuorumStore.Placement.Ring
import QuorumStore.Proofs.RowRange

/-!
# The slices of a range are those of its rows

A range is split among the tokens by clamping it to the gaps between them; a row finds its token by
looking for its predecessor. Both lead to the same token.

* `tokenList_pairwise`: the tokens ascend.
* `ownerToken_of_gap`, `ownerToken_of_lt_head`: the token of a row in a gap, and before all gaps.
* `cuts_pairwise`, `countP_cuts`, `ownerToken_of_mem_cuts`: the parts of a range between tokens.
* `Ring.planRange_spec`: the slices of a range are disjoint and ascending, contain exactly its rows,
  and each has the replicas and the token of its rows.
* `planRange?_exact`: **these are the slices a ring gives, whatever its factor, unless it has no room
  for the replicas of one of them.**
-/

namespace QuorumStore

open Std

/-- Every row of one range comes before every row of the other. -/
def RowRange.Before (a b : RowRange) : Prop :=
  ∀ row row', a.contains row = true → b.contains row' = true → row < row'

/-- Every row of one slice comes before every row of the other. -/
def SubRange.Before (a b : SubRange) : Prop := a.range.Before b.range

namespace RingLayout

variable {r : RingLayout} {range : RowRange} {row t : Bytes} {toks pre post : List Bytes}
  {cut : RowRange × Bytes}

/-- The tokens ascend. -/
theorem tokenList_pairwise (r : RingLayout) : r.tokenList.Pairwise (· < ·) :=
  ExtTreeMap.ordered_keys.imp fun h => (Bytes.compare_eq_lt_iff _ _).1 h

/-- A row between a token and the next one belongs to the token. -/
theorem ownerToken_of_gap (htoks : r.tokenList = pre ++ t :: post) (hle : t ≤ row)
    (hlt : ∀ x ∈ post.head?, row < x) : r.ownerToken row = some t := by
  have hsorted := r.tokenList_pairwise
  rw [htoks, List.pairwise_append] at hsorted
  -- the tokens up to `t` are those that are not after the row
  have hpre : ∀ x ∈ pre, decide (x ≤ row) = true := by
    intro x hx
    have := hsorted.2.2 x hx t List.mem_cons_self
    exact decide_eq_true (List.le_trans (List.le_of_lt this) hle)
  have hpost : post.takeWhile (· ≤ row) = [] := by
    cases post with
    | nil => rfl
    | cons x rest =>
      have hx : ¬ x ≤ row := List.not_le.2 (hlt x rfl)
      rw [List.takeWhile_cons_of_neg (by simpa using hx)]
  have hgap : (t :: post).takeWhile (· ≤ row) = [t] := by
    rw [List.takeWhile_cons_of_pos (by simpa using hle), hpost]
  unfold ownerToken
  rw [htoks, List.takeWhile_append_of_pos hpre, hgap, List.getLast?_append]
  rfl

/-- A row before all tokens belongs to the last one. -/
theorem ownerToken_of_lt_head {first : Bytes} (hfirst : r.tokenList.head? = some first)
    (hlt : row < first) : r.ownerToken row = r.tokenList.getLast? := by
  obtain ⟨rest, htoks⟩ : ∃ rest, r.tokenList = first :: rest := by
    cases h : r.tokenList with
    | nil => rw [h] at hfirst; cases hfirst
    | cons x rest =>
      rw [h] at hfirst
      exact ⟨rest, by rw [Option.some.inj hfirst]⟩
  have hno : ¬ first ≤ row := List.not_le.2 hlt
  unfold ownerToken
  rw [htoks, List.takeWhile_cons_of_neg (by simpa using hno)]
  rfl

/-- In ascending tokens the gap after a token ends at the next one, if there is one. -/
theorem contains_gap (hsorted : (t :: post).Pairwise (· < ·)) :
    (RowRange.between t (post.head?.getD [])).contains row = true ↔
      t ≤ row ∧ ∀ x ∈ post.head?, row < x := by
  rw [RowRange.contains_between]
  cases post with
  | nil => simp
  | cons x rest =>
    have hlt : t < x := (List.pairwise_cons.1 hsorted).1 x List.mem_cons_self
    have hx : x ≠ [] := by
      rintro rfl
      exact List.not_lt_nil _ hlt
    simp [hx]

/-- How many parts that come of one clamping contain a row. -/
theorem countP_clamp (start stop owner : Bytes) :
    ((((range.clamp start stop).map (·, owner)).toList).countP (·.1.contains row)) =
      if range.contains row = true ∧ (RowRange.between start stop).contains row = true
      then 1 else 0 := by
  cases hclamp : range.clamp start stop with
  | none => rw [if_neg (RowRange.clamp_eq_none hclamp row)]; rfl
  | some part =>
    have hpart := (RowRange.clamp_spec hclamp).2.2.2 row
    simp only [Option.map_some, Option.toList_some, List.countP_singleton, hpart]

/-- Every part that starts at a token is what clamping to the gap after that token leaves. -/
theorem mem_cutsFrom (h : cut ∈ cutsFrom range toks) : ∃ pre post,
    toks = pre ++ cut.2 :: post ∧ range.clamp cut.2 (post.head?.getD []) = some cut.1 := by
  induction toks with
  | nil => cases h
  | cons t rest ih =>
    unfold cutsFrom at h
    rcases List.mem_append.1 h with hhere | hrest
    · obtain ⟨part, hpart, rfl⟩ := Option.map_eq_some_iff.1 (Option.mem_toList.1 hhere)
      exact ⟨[], rest, rfl, hpart⟩
    · obtain ⟨pre, post, rfl, hclamp⟩ := ih hrest
      exact ⟨t :: pre, post, rfl, hclamp⟩

/-- **A row of the range that is not before the tokens is in one part, every other row in none.** -/
theorem countP_cutsFrom (hsorted : toks.Pairwise (· < ·)) :
    (cutsFrom range toks).countP (·.1.contains row) =
      if range.contains row = true ∧ ∃ t ∈ toks.head?, t ≤ row then 1 else 0 := by
  induction toks with
  | nil => rw [if_neg (by simp)]; rfl
  | cons t rest ih =>
    unfold cutsFrom
    simp only [List.countP_append, countP_clamp, ih (List.pairwise_cons.1 hsorted).2,
      contains_gap hsorted]
    by_cases hin : range.contains row = true
    · cases rest with
      | nil => simp [hin]
      | cons x rest =>
        have hlt : t < x := (List.pairwise_cons.1 hsorted).1 x List.mem_cons_self
        -- the row is in the gap after `t` or behind it, not both
        by_cases hx : x ≤ row
        · have ht : t ≤ row := List.le_trans (List.le_of_lt hlt) hx
          have hnot : ¬ row < x := List.not_lt.2 hx
          simp [hin, hx, ht, hnot]
        · have hnot : row < x := List.not_le.1 hx
          simp [hin, hx, hnot]
    · simp [hin]

/-- A part that starts at a token contains no row before the first of the tokens. -/
theorem head_le_of_mem_cutsFrom (hsorted : toks.Pairwise (· < ·)) (h : cut ∈ cutsFrom range toks)
    (hrow : cut.1.contains row = true) : ∀ x ∈ toks.head?, x ≤ row := by
  have hpos : 0 < (cutsFrom range toks).countP (·.1.contains row) :=
    List.countP_pos_iff.2 ⟨cut, h, hrow⟩
  rw [countP_cutsFrom hsorted] at hpos
  split at hpos
  · rename_i hhead
    obtain ⟨t, ht, hle⟩ := hhead.2
    intro x hx
    rw [Option.mem_def] at ht hx
    rwa [Option.some.inj (hx.symm.trans ht)]
  · omega

theorem cutsFrom_pairwise (hsorted : toks.Pairwise (· < ·)) :
    (cutsFrom range toks).Pairwise (·.1.Before ·.1) := by
  induction toks with
  | nil => exact List.Pairwise.nil
  | cons t rest ih =>
    have hrest := (List.pairwise_cons.1 hsorted).2
    unfold cutsFrom
    refine List.pairwise_append.2 ⟨?_, ih hrest, ?_⟩
    · cases range.clamp t (rest.head?.getD []) with
      | none => exact List.Pairwise.nil
      | some part => exact List.pairwise_singleton _ _
    · intro a ha b hb row row' hrow hrow'
      obtain ⟨part, hpart, rfl⟩ := Option.map_eq_some_iff.1 (Option.mem_toList.1 ha)
      have hgap := (contains_gap hsorted).1 (((RowRange.clamp_spec hpart).2.2.2 row).1 hrow).2
      -- the later part exists, so there is a next token, and the two rows are on its two sides
      cases rest with
      | nil => cases hb
      | cons x rest =>
        have hx := head_le_of_mem_cutsFrom hrest hb hrow' x rfl
        exact Std.lt_of_lt_of_le (hgap.2 x rfl) hx

/-- The part before the first token is what clamping to the rows before it leaves. -/
theorem mem_wrapped {first last : Bytes} (h : cut ∈ wrapped range first last) :
    first ≠ [] ∧ range.clamp [] first = some cut.1 ∧ cut.2 = last := by
  unfold wrapped at h
  split at h
  · cases h
  · rename_i hne
    obtain ⟨part, hpart, rfl⟩ := Option.map_eq_some_iff.1 (Option.mem_toList.1 h)
    exact ⟨fun hnil => hne (by rw [hnil]; rfl), hpart, rfl⟩

theorem lt_of_mem_wrapped {first last : Bytes} (h : cut ∈ wrapped range first last)
    (hrow : cut.1.contains row = true) : row < first := by
  obtain ⟨hne, hclamp, -⟩ := mem_wrapped h
  have hgap := (((RowRange.clamp_spec hclamp).2.2.2 row).1 hrow).2
  rcases (RowRange.contains_between.1 hgap).2 with hnil | hlt
  · exact absurd hnil hne
  · exact hlt

theorem countP_wrapped (first last : Bytes) :
    (wrapped range first last).countP (·.1.contains row) =
      if range.contains row = true ∧ row < first then 1 else 0 := by
  unfold wrapped
  split
  · rename_i hnil
    rw [List.isEmpty_iff.1 hnil, if_neg fun h => List.not_lt_nil _ h.2]
    rfl
  · rename_i hne
    rw [List.isEmpty_iff] at hne
    simp only [countP_clamp, RowRange.contains_between, hne, false_or]
    simp

theorem wrapped_pairwise (first last : Bytes) :
    (wrapped range first last).Pairwise (·.1.Before ·.1) := by
  unfold wrapped
  split
  · exact List.Pairwise.nil
  · cases range.clamp [] first with
    | none => exact List.Pairwise.nil
    | some part => exact List.pairwise_singleton _ _

theorem tokenList_of_empty (h : r.tokens = ∅) : r.tokenList = [] := by
  unfold tokenList
  exact ExtTreeMap.keys_eq_nil_iff.2 h

theorem ownerToken_of_empty (h : r.tokens = ∅) : r.ownerToken row = none := by
  unfold ownerToken
  rw [tokenList_of_empty h]
  rfl

theorem cuts_of_empty (h : r.tokens = ∅) : r.cuts range = [] := by
  unfold cuts
  rw [tokenList_of_empty h]
  rfl

/-- What the parts of a range are made of, on a ring with tokens. -/
theorem cuts_eq (hne : r.tokens ≠ ∅) (range : RowRange) : ∃ first last,
    r.tokenList.head? = some first ∧ r.tokenList.getLast? = some last ∧
      r.cuts range = wrapped range first last ++ cutsFrom range r.tokenList := by
  have hlist : r.tokenList ≠ [] := by
    unfold tokenList
    rwa [ne_eq, ExtTreeMap.keys_eq_nil_iff]
  obtain ⟨first, hfirst⟩ := Option.isSome_iff_exists.1 (List.isSome_head?.2 hlist)
  obtain ⟨last, hlast⟩ := Option.isSome_iff_exists.1 (List.getLast?_isSome.2 hlist)
  exact ⟨first, last, hfirst, hlast, by unfold cuts; rw [hfirst, hlast]⟩

/-- A ring with a part of some range has tokens. -/
theorem tokens_ne_of_mem_cuts (h : cut ∈ r.cuts range) : r.tokens ≠ ∅ := by
  intro hempty
  rw [cuts_of_empty hempty] at h
  cases h

/-- Every part is what some clamping leaves. -/
theorem clamp_of_mem_cuts (h : cut ∈ r.cuts range) :
    ∃ start stop, range.clamp start stop = some cut.1 := by
  obtain ⟨first, last, -, -, hcuts⟩ := cuts_eq (tokens_ne_of_mem_cuts h) range
  rw [hcuts] at h
  rcases List.mem_append.1 h with h | h
  · exact ⟨_, _, (mem_wrapped h).2.1⟩
  · obtain ⟨_, _, -, hclamp⟩ := mem_cutsFrom h
    exact ⟨_, _, hclamp⟩

theorem cuts_pairwise (r : RingLayout) (range : RowRange) :
    (r.cuts range).Pairwise (·.1.Before ·.1) := by
  by_cases hempty : r.tokens = ∅
  · rw [cuts_of_empty hempty]
    exact .nil
  · obtain ⟨first, last, hfirst, -, hcuts⟩ := cuts_eq hempty range
    have hsorted := r.tokenList_pairwise
    rw [hcuts]
    refine List.pairwise_append.2 ⟨wrapped_pairwise first last, cutsFrom_pairwise hsorted, ?_⟩
    intro a ha b hb row row' hrow hrow'
    have hlt := lt_of_mem_wrapped ha hrow
    have hle := head_le_of_mem_cutsFrom hsorted hb hrow' first hfirst
    exact Std.lt_of_lt_of_le hlt hle

theorem countP_cuts (hne : r.tokens ≠ ∅) (row : Bytes) :
    (r.cuts range).countP (·.1.contains row) = if range.contains row then 1 else 0 := by
  obtain ⟨first, last, hfirst, -, hcuts⟩ := cuts_eq hne range
  rw [hcuts, List.countP_append, countP_wrapped, countP_cutsFrom r.tokenList_pairwise, hfirst]
  by_cases hin : range.contains row = true
  · by_cases hlt : row < first
    · have hle : ¬ first ≤ row := List.not_le.2 hlt
      simp [hin, hlt, hle]
    · have hle : first ≤ row := List.not_lt.1 hlt
      simp [hin, hlt, hle]
  · simp [hin]

/-- The rows of a part belong to the token of the part. -/
theorem ownerToken_of_mem_cuts (h : cut ∈ r.cuts range) (hrow : cut.1.contains row = true) :
    r.ownerToken row = some cut.2 := by
  obtain ⟨first, last, hfirst, hlast, hcuts⟩ := cuts_eq (tokens_ne_of_mem_cuts h) range
  rw [hcuts] at h
  rcases List.mem_append.1 h with h | h
  · rw [(mem_wrapped h).2.2, ownerToken_of_lt_head hfirst (lt_of_mem_wrapped h hrow), hlast]
  · obtain ⟨pre, post, htoks, hclamp⟩ := mem_cutsFrom h
    have hsorted := r.tokenList_pairwise
    rw [htoks, List.pairwise_append] at hsorted
    have hgap := (((RowRange.clamp_spec hclamp).2.2.2 row).1 hrow).2
    obtain ⟨hle, hlt⟩ := (contains_gap hsorted.2.1).1 hgap
    exact ownerToken_of_gap htoks hle hlt

/-- A row of the range is in some part. -/
theorem exists_mem_cuts (hne : r.tokens ≠ ∅) (hrow : range.contains row = true) :
    ∃ cut ∈ r.cuts range, cut.1.contains row = true := by
  have hcount := @countP_cuts r range hne row
  rw [if_pos hrow] at hcount
  exact List.countP_pos_iff.1 (hcount ▸ Nat.one_pos)

/-- A range has parts exactly if it contains some row. -/
theorem cuts_ne_nil_iff (hne : r.tokens ≠ ∅) :
    r.cuts range ≠ [] ↔ ∃ row, range.contains row = true := by
  constructor
  · intro hcuts
    obtain ⟨cut, hcut⟩ := List.exists_mem_of_ne_nil _ hcuts
    obtain ⟨_, _, hclamp⟩ := clamp_of_mem_cuts hcut
    obtain ⟨-, -, hstart, hrows⟩ := RowRange.clamp_spec hclamp
    exact ⟨_, ((hrows _).1 hstart).1⟩
  · rintro ⟨row, hrow⟩
    obtain ⟨cut, hcut, -⟩ := exists_mem_cuts hne hrow
    exact List.ne_nil_of_mem hcut

end RingLayout

namespace Ring

variable {r : Ring} {range : RowRange} {row : Bytes} {sub : SubRange}

theorem mem_planRange_iff : sub ∈ r.planRange range ↔
    ∃ cut ∈ r.cuts range, ⟨cut.1, cut.2, r.replicasFrom cut.2⟩ = sub := List.mem_map

theorem planRange_of_empty (h : r.tokens = ∅) : r.planRange range = [] := by
  unfold planRange
  rw [RingLayout.cuts_of_empty h]
  rfl

theorem replicasOf_of_empty (h : r.tokens = ∅) : r.replicasOf row = [] := by
  unfold replicasOf
  rw [RingLayout.ownerToken_of_empty h]

/-- Every slice is what some clamping leaves. -/
theorem clamp_of_mem_planRange (h : sub ∈ r.planRange range) :
    ∃ start stop, range.clamp start stop = some sub.range := by
  obtain ⟨cut, hcut, rfl⟩ := mem_planRange_iff.1 h
  exact RingLayout.clamp_of_mem_cuts hcut

theorem planRange_pairwise (r : Ring) (range : RowRange) :
    (r.planRange range).Pairwise SubRange.Before :=
  List.pairwise_map.2 (r.cuts_pairwise range)

theorem countP_planRange (hne : r.tokens ≠ ∅) (row : Bytes) :
    (r.planRange range).countP (·.range.contains row) = if range.contains row then 1 else 0 := by
  unfold planRange
  rw [List.countP_map]
  exact RingLayout.countP_cuts hne row

theorem replicas_of_mem_planRange (h : sub ∈ r.planRange range) :
    sub.replicas = r.replicasFrom sub.owner := by
  obtain ⟨cut, -, rfl⟩ := mem_planRange_iff.1 h
  rfl

/-- The rows of a slice belong to the token of the slice. -/
theorem ownerToken_of_mem_planRange (h : sub ∈ r.planRange range)
    (hrow : sub.range.contains row = true) : r.ownerToken row = some sub.owner := by
  obtain ⟨cut, hcut, rfl⟩ := mem_planRange_iff.1 h
  exact RingLayout.ownerToken_of_mem_cuts hcut hrow

/-- A row of the range is in some slice. -/
theorem exists_mem_planRange (hne : r.tokens ≠ ∅) (hrow : range.contains row = true) :
    ∃ sub ∈ r.planRange range, sub.range.contains row = true := by
  obtain ⟨cut, hcut, hin⟩ := RingLayout.exists_mem_cuts hne hrow
  exact ⟨_, mem_planRange_iff.2 ⟨cut, hcut, rfl⟩, hin⟩

/-- The replicas of a slice are those of each of its rows. -/
theorem replicasOf_of_mem_planRange (h : sub ∈ r.planRange range)
    (hrow : sub.range.contains row = true) : r.replicasOf row = sub.replicas := by
  unfold replicasOf
  rw [ownerToken_of_mem_planRange h hrow, replicas_of_mem_planRange h]

/-- The slices of a range on a ring with room for its replicas. They ascend without overlap; a row of
the range is in exactly one of them and any other row in none; and each slice has the columns and the
batch hint of the range, contains some row, and has the replicas and the token of each row it
contains. -/
theorem planRange_spec (r : Ring) (hne : r.tokens ≠ ∅) (range : RowRange) :
    (r.planRange range).Pairwise
      (fun a b => a.range.start < b.range.start ∧ SubRange.Before a b) ∧
    (∀ row, (r.planRange range).countP (·.range.contains row) =
      if range.contains row then 1 else 0) ∧
    ∀ sub ∈ r.planRange range,
      sub.range.columns = range.columns ∧ sub.range.batchHint = range.batchHint ∧
      (∃ row, sub.range.contains row = true) ∧
      ∀ row, sub.range.contains row = true →
        r.replicasOf row = sub.replicas ∧ r.ownerToken row = some sub.owner := by
  have hspec : ∀ sub ∈ r.planRange range, sub.range.columns = range.columns ∧
      sub.range.batchHint = range.batchHint ∧ sub.range.contains sub.range.start = true := by
    intro sub hsub
    obtain ⟨_, _, hclamp⟩ := clamp_of_mem_planRange hsub
    obtain ⟨hcolumns, hhint, hstart, -⟩ := RowRange.clamp_spec hclamp
    exact ⟨hcolumns, hhint, hstart⟩
  refine ⟨?_, countP_planRange hne, fun sub hsub => ?_⟩
  · -- slices contain their starts, so these ascend as the slices do
    refine (r.planRange_pairwise range).imp_of_mem fun {a b} ha hb hab => ⟨?_, hab⟩
    exact hab _ _ (hspec a ha).2.2 (hspec b hb).2.2
  · obtain ⟨hcolumns, hhint, hstart⟩ := hspec sub hsub
    exact ⟨hcolumns, hhint, ⟨_, hstart⟩, fun row hrow =>
      ⟨replicasOf_of_mem_planRange hsub hrow, ownerToken_of_mem_planRange hsub hrow⟩⟩

end Ring

namespace RingLayout

variable {r : RingLayout} {range : RowRange} {row token : Bytes}

/-- Without room for them there are no replicas of any token. -/
theorem replicasFrom?_of_lt (h : maxReplicas < r.replication) : r.replicasFrom? token = none :=
  if_neg (Nat.not_le.2 h)

/-- A ring that has room for its replicas gives them. -/
theorem replicasOf?_of_le (h : r.replication ≤ maxReplicas) (row : Bytes) :
    r.replicasOf? row = some (({ r with replication_le := h } : Ring).replicasOf row) := by
  unfold replicasOf? Ring.replicasOf
  dsimp only
  cases r.ownerToken row with
  | none => rfl
  | some token => exact if_pos h

theorem planRange?_of_le (h : r.replication ≤ maxReplicas) (range : RowRange) :
    r.planRange? range = some (({ r with replication_le := h } : Ring).planRange range) := by
  have hroom : ∀ token, r.replicasFrom? token =
      some (({ r with replication_le := h } : Ring).replicasFrom token) := fun _ => if_pos h
  unfold planRange? Ring.planRange
  simp only [hroom]
  exact List.mapM_pure

/-- A ring gives no slices exactly if there are some and it has no room for their replicas. -/
theorem planRange?_eq_none_iff (hne : r.tokens ≠ ∅) : r.planRange? range = none ↔
    maxReplicas < r.replication ∧ ∃ row, range.contains row = true := by
  by_cases hroom : r.replication ≤ maxReplicas
  · rw [planRange?_of_le hroom]
    exact ⟨nofun, fun h => absurd hroom (Nat.not_le.2 h.1)⟩
  · have hlt := Nat.not_le.1 hroom
    rw [← cuts_ne_nil_iff hne]
    unfold planRange?
    cases r.cuts range with
    | nil => exact ⟨nofun, fun h => absurd rfl h.2⟩
    | cons cut cuts =>
      refine iff_of_true ?_ ⟨hlt, List.cons_ne_nil cut cuts⟩
      rw [List.mapM_cons]
      dsimp only
      rw [replicasFrom?_of_lt hlt]
      rfl

/-- **The slices of a range are those of its rows.** A ring with tokens gives slices of every range,
unless the range contains some row and the ring has no room for replicas. The slices ascend without
overlap; a row of the range is in exactly one of them and any other row in none; and each slice has
the columns and the batch hint of the range, contains some row, and has the replicas and the token of
each row it contains. -/
theorem planRange?_exact (r : RingLayout) (hne : r.tokens ≠ ∅) (range : RowRange) :
    (r.planRange? range = none ↔
      maxReplicas < r.replication ∧ ∃ row, range.contains row = true) ∧
    ∀ plan, r.planRange? range = some plan →
      plan.Pairwise (fun a b => a.range.start < b.range.start ∧ SubRange.Before a b) ∧
      (∀ row, plan.countP (·.range.contains row) = if range.contains row then 1 else 0) ∧
      ∀ sub ∈ plan,
        sub.range.columns = range.columns ∧ sub.range.batchHint = range.batchHint ∧
        (∃ row, sub.range.contains row = true) ∧
        ∀ row, sub.range.contains row = true →
          r.replicasOf? row = some sub.replicas ∧ r.ownerToken row = some sub.owner := by
  refine ⟨planRange?_eq_none_iff hne, fun plan hplan => ?_⟩
  by_cases hroom : r.replication ≤ maxReplicas
  · rw [planRange?_of_le hroom] at hplan
    cases hplan
    simp only [replicasOf?_of_le hroom, Option.some.injEq]
    exact Ring.planRange_spec _ hne range
  · -- without room there are no slices, so the range has no row
    have hcuts : r.cuts range = [] := by
      by_contra hcuts
      have hnone := (planRange?_eq_none_iff hne).2
        ⟨Nat.not_le.1 hroom, (cuts_ne_nil_iff hne).1 hcuts⟩
      rw [hplan] at hnone
      cases hnone
    have hnorow : ∀ row, ¬ range.contains row = true := fun row hrow =>
      (cuts_ne_nil_iff hne).2 ⟨row, hrow⟩ hcuts
    unfold planRange? at hplan
    rw [hcuts] at hplan
    cases hplan
    exact ⟨.nil, fun row => (if_neg (hnorow row)).symm, fun _ h => absurd h List.not_mem_nil⟩

end RingLayout

namespace Ring

/-- Three tokens, of which one endpoint owns two. -/
def threeTokens : Ring where
  version := 1
  replication := 2
  tokens := ((∅ : ExtTreeMap Bytes ReplicaId).insert [64] "a").insert [128] "b" |>.insert [192] "a"
  replication_le := two_le_maxReplicas

end Ring

namespace RingLayout

/-- The rows on both sides of the first token are each in one slice. -/
theorem planRange?_threeTokens : Ring.threeTokens.tokens ≠ ∅ ∧
    ∃ plan, Ring.threeTokens.planRange? (.between [32] [100]) = some plan ∧
      plan.countP (·.range.contains [48]) = 1 ∧ plan.countP (·.range.contains [80]) = 1 := by
  have hne : Ring.threeTokens.tokens ≠ ∅ := ExtTreeMap.insert_ne_empty
  obtain ⟨-, hsome⟩ := planRange?_exact Ring.threeTokens.toRingLayout hne (.between [32] [100])
  have hplan := planRange?_of_le Ring.threeTokens.replication_le (.between [32] [100])
  exact ⟨hne, _, hplan, (hsome _ hplan).2.1 [48], (hsome _ hplan).2.1 [80]⟩

/-- The ring of one token that promises as many replicas as a 64-bit number can count. -/
def boundless : RingLayout where
  version := 1
  replication := 9223372036854775807
  tokens := (∅ : ExtTreeMap Bytes ReplicaId).insert [0] "a"

/-- It has no room for the one replica of a row, and gives no slice of any range that has a row. -/
theorem planRange?_boundless : boundless.planRange? .all = none ∧ boundless.tokens ≠ ∅ ∧
    RowRange.all.contains [] = true := by
  refine ⟨?_, ExtTreeMap.insert_ne_empty, rfl⟩
  decide

end RingLayout

end QuorumStore
