import Mathlib.Data.Set.Image
import QuorumStore.Proofs.Merge
import QuorumStore.Proofs.Store.Reads

/-!
# What reads show of the versions of a cell

A read may ask for the latest version of a cell, for all of them, or for their timestamps only. A
replica projects what it has, and what the replicas give is merged. Neither matters for what is shown
in the end: each payload is a function of the set of versions that the replicas have in sight
together. The latest version is the greatest of the set, a history the set itself, and what is left of
either without the contents comes from the image of the set. So payloads that show the same versions
agree with each other.

* `GreatestOf`, `AllOf`: payloads as functions of a set of versions.
* `Depicts`: what a read gives for a cell shows a set of versions.
* `Depicts.foldl_merge`: **merged payloads show the union.**
* `Depicts.rel`: payloads that show the same versions are related as the functions are.
* `Projection.depicts_project`: what a range read gives for the versions of a cell shows those in
  sight.
* `Store.depicts_get`, `Store.depicts_getLatestTimestamps`, `Store.depicts_getAllTimestamps`: so do
  the answers to point reads.
* `viewsAgree_of_same`: **point reads that are answered by the same replicas agree.**
-/

namespace QuorumStore

open Std

section Payloads

variable {α : Type} [Ord α]

/-- The greatest of what `f` makes of the versions. -/
def GreatestOf (f : Value → α) (S : Set Value) (x : α) : Prop :=
  x ∈ f '' S ∧ ∀ y ∈ f '' S, (compare y x).isLE = true

variable [TransOrd α]

/-- All of what `f` makes of the versions. -/
def AllOf (f : Value → α) (S : Set Value) (s : ExtTreeSet α) : Prop := ∀ x, x ∈ s ↔ x ∈ f '' S

variable {f : Value → α} {S T : Set Value} {x y : α}

/-- Joining takes the greatest of two sets to that of their union. -/
theorem GreatestOf.union {join : α → α → α} (hjoin : Merge.TakesGreater join)
    (hx : GreatestOf f S x) (hy : GreatestOf f T y) : GreatestOf f (S ∪ T) (join x y) := by
  unfold GreatestOf
  rw [Set.image_union]
  refine ⟨?_, ?_⟩
  · rcases hjoin.one_of x y with heq | heq <;> rw [heq]
    · exact Or.inl hx.1
    · exact Or.inr hy.1
  · rintro z (hz | hz)
    · exact TransCmp.isLE_trans (hx.2 z hz) (hjoin.left_le x y)
    · exact TransCmp.isLE_trans (hy.2 z hz) (hjoin.right_le x y)

theorem AllOf.union {s s' : ExtTreeSet α} (hs : AllOf f S s) (hs' : AllOf f T s') :
    AllOf f (S ∪ T) (s ∪ s') := by
  intro x
  rw [ExtTreeSet.mem_union_iff, Set.image_union, hs x, hs' x]
  rfl

variable [LawfulEqOrd α]

theorem GreatestOf.unique (hx : GreatestOf f S x)
    (hy : GreatestOf f S y) : x = y :=
  LawfulEqOrd.eq_of_compare (OrientedCmp.isLE_antisymm (hy.2 x hx.1) (hx.2 y hy.1))

/-- The greatest is the maximum of all. -/
theorem GreatestOf.max?_eq {s : ExtTreeSet α} (hx : GreatestOf f S x) (hs : AllOf f S s) : s.max? = some x := by
  rw [ExtTreeSet.max?_eq_some_iff_mem_and_forall]
  exact ⟨(hs x).2 hx.1, fun y hy => hx.2 y ((hs y).1 hy)⟩

/-- No version is later than the greatest. -/
theorem GreatestOf.timestamp {v : Value} (hv : GreatestOf id S v) :
    GreatestOf Value.timestamp S v.timestamp := by
  rw [GreatestOf, Set.image_id] at hv
  refine ⟨Set.mem_image_of_mem _ hv.1, ?_⟩
  rintro _ ⟨w, hw, rfl⟩
  have hle := hv.2 w hw
  rw [Value.compare_def, Ordering.isLE_then_iff_or] at hle
  rcases hle with hlt | ⟨heq, -⟩
  · exact Ordering.isLE_of_eq_lt hlt
  · exact Ordering.isLE_of_eq_eq heq

end Payloads

/-- The timestamps of some versions. -/
def timestampsOf (versions : ExtTreeSet Value) : ExtTreeSet Timestamp :=
  ExtTreeSet.ofList (versions.toList.map Value.timestamp) compare

theorem mem_timestampsOf {versions : ExtTreeSet Value} {ts : Timestamp} :
    ts ∈ timestampsOf versions ↔ ∃ v : Value, v ∈ versions ∧ v.timestamp = ts := by
  unfold timestampsOf
  simp only [mem_setOfList, List.mem_map, ExtTreeSet.mem_toList]

/-- The timestamps of all versions are the image of the versions. -/
theorem AllOf.eq_timestampsOf {S : Set Value} {stamps : ExtTreeSet Timestamp}
    {versions : ExtTreeSet Value} (hstamps : AllOf Value.timestamp S stamps)
    (hversions : AllOf id S versions) : stamps = timestampsOf versions := by
  refine ExtTreeSet.ext_mem fun ts => ?_
  rw [hstamps ts, mem_timestampsOf]
  unfold AllOf at hversions
  simp only [Set.image_id] at hversions
  simp only [hversions, Set.mem_image]

section Depicts

variable {τ σ ι : Type} {view : Set Value → τ → Prop} {view' : Set Value → σ → Prop}
  {S T : Set Value} {o o' : Option τ}

/-- What a read gives for a cell shows the versions of a set: nothing if there are none, and else a
payload of them. -/
def Depicts (view : Set Value → τ → Prop) (S : Set Value) : Option τ → Prop
  | none => S = ∅
  | some x => S.Nonempty ∧ view S x

/-- Merging unites what is shown. -/
theorem Depicts.merge {join : τ → τ → τ}
    (hjoin : ∀ {S T x y}, view S x → view T y → view (S ∪ T) (join x y))
    (h : Depicts view S o) (h' : Depicts view T o') :
    Depicts view (S ∪ T) (Option.merge join o o') := by
  cases o with
  | none =>
    rw [Option.merge_none_left, (h : S = ∅), Set.empty_union]
    exact h'
  | some x =>
    cases o' with
    | none =>
      rw [Option.merge_none_right, (h' : T = ∅), Set.union_empty]
      exact h
    | some y => exact ⟨h.1.inl, hjoin h.2 h'.2⟩

/-- **Merged payloads show the union** of what each shows, in whatever order they come. -/
theorem Depicts.foldl_merge {join : τ → τ → τ}
    (hjoin : ∀ {S T x y}, view S x → view T y → view (S ∪ T) (join x y)) {l : List ι}
    {sight : ι → Set Value} {give : ι → Option τ} (h : ∀ i ∈ l, Depicts view (sight i) (give i)) :
    Depicts view {v | ∃ i ∈ l, v ∈ sight i}
      (l.foldl (fun found i => Option.merge join found (give i)) none) := by
  have hfold : ∀ (S : Set Value) (found : Option τ), Depicts view S found →
      Depicts view (S ∪ {v | ∃ i ∈ l, v ∈ sight i})
        (l.foldl (fun found i => Option.merge join found (give i)) found) := by
    induction l with
    | nil =>
      intro S found hfound
      simpa using hfound
    | cons i l ih =>
      intro S found hfound
      have hrest := ih (fun j hj => h j (List.mem_cons_of_mem i hj)) _ _
        (hfound.merge hjoin (h i List.mem_cons_self))
      have hsplit : {v | ∃ j ∈ i :: l, v ∈ sight j} = sight i ∪ {v | ∃ j ∈ l, v ∈ sight j} := by
        ext v
        simp
      rw [hsplit, ← Set.union_assoc]
      exact hrest
  have hall := hfold ∅ none rfl
  rwa [Set.empty_union] at hall

/-- Of a cell that is not asked for nothing is shown. -/
theorem depicts_asked {τ : Type} {view : Set Value → τ → Prop} {S : Set Value} {o : Option τ}
    {asked : Prop} (hasked : asked → Depicts view S o) (hother : ¬ asked → o = none) :
    Depicts view {v | asked ∧ v ∈ S} o := by
  by_cases h : asked
  · have hall : {v | asked ∧ v ∈ S} = S := by
      ext v
      simp [h]
    rw [hall]
    exact hasked h
  · rw [hother h]
    simp [h, Depicts]

/-- Payloads that show the same versions are related as the payloads of a set are. -/
theorem Depicts.rel {R : τ → σ → Prop} {a : Option τ} {b : Option σ} (ha : Depicts view S a)
    (hb : Depicts view' S b) (hrel : ∀ x y, view S x → view' S y → R x y) : Option.Rel R a b := by
  cases a with
  | none =>
    cases b with
    | none => exact .none
    | some y => exact absurd hb.1 (Set.not_nonempty_iff_eq_empty.2 ha)
  | some x =>
    cases b with
    | none => exact absurd ha.1 (Set.not_nonempty_iff_eq_empty.2 hb)
    | some y => exact .some (hrel x y ha.2 hb.2)

end Depicts

section Agreement

variable {S : Set Value} {value : Option Value} {latest : Option Timestamp}
  {history : Option (ExtTreeSet Value)} {stamps : Option (ExtTreeSet Timestamp)}

theorem Depicts.rel_latest (hvalue : Depicts (GreatestOf id) S value)
    (hlatest : Depicts (GreatestOf Value.timestamp) S latest) :
    Option.Rel (fun v ts => ts = v.timestamp) value latest :=
  hvalue.rel hlatest fun _ _ hv hts => hts.unique hv.timestamp

theorem Depicts.rel_stamps (hvalue : Depicts (GreatestOf id) S value)
    (hstamps : Depicts (AllOf Value.timestamp) S stamps) :
    Option.Rel (fun v stamps => stamps.max? = some v.timestamp) value stamps :=
  hvalue.rel hstamps fun _ _ hv hs => hv.timestamp.max?_eq hs

theorem Depicts.rel_history (hvalue : Depicts (GreatestOf id) S value)
    (hhistory : Depicts (AllOf id) S history) :
    Option.Rel (fun v versions => versions.max? = some v) value history :=
  hvalue.rel hhistory fun _ _ hv hs => hv.max?_eq hs

theorem Depicts.rel_image (hstamps : Depicts (AllOf Value.timestamp) S stamps)
    (hhistory : Depicts (AllOf id) S history) :
    Option.Rel (fun stamps versions => stamps = timestampsOf versions) stamps history :=
  hstamps.rel hhistory fun _ _ hs hh => hs.eq_timestampsOf hh

end Agreement

/-- What a range read makes of a set of versions. -/
def Projection.view {τ : Type} : Projection τ → Set Value → τ → Prop
  | latest => GreatestOf id
  | history => AllOf id
  | timestamps => AllOf Value.timestamp

namespace Projection

variable {τ : Type}

/-- Combining payloads unites the versions. -/
theorem view_merge (p : Projection τ) {S T : Set Value} {x y : τ} (hx : p.view S x)
    (hy : p.view T y) : p.view (S ∪ T) (p.merge x y) := by
  cases p with
  | latest => exact GreatestOf.union Merge.takesGreater_newer hx hy
  | history => exact AllOf.union hx hy
  | timestamps => exact AllOf.union hx hy

/-- A set of what `f` makes of some versions, if it has a member. -/
theorem depicts_nonempty {α : Type} [Ord α] [TransOrd α] {f : Value → α} {S : Set Value}
    {s : ExtTreeSet α} (h : AllOf f S s) : Depicts (AllOf f) S (nonempty s) := by
  unfold nonempty
  split
  · rename_i hempty
    rw [ExtTreeSet.isEmpty_iff] at hempty
    subst hempty
    refine Set.eq_empty_iff_forall_notMem.2 fun v hv => ?_
    exact ExtTreeSet.not_mem_empty ((h (f v)).2 (Set.mem_image_of_mem f hv))
  · rename_i hfull
    refine ⟨?_, h⟩
    by_contra hnone
    rw [Set.not_nonempty_iff_eq_empty] at hnone
    subst hnone
    refine hfull (ExtTreeSet.isEmpty_iff.2 (ExtTreeSet.eq_empty_iff_forall_not_mem.2 fun x hx => ?_))
    simpa using (h x).1 hx

/-- **What a range read gives for the versions of a cell** shows those in sight. -/
theorem depicts_project (p : Projection τ) (vs : Versions) (t : Timestamp) :
    Depicts p.view {v | v ∈ vs.before t} (p.project vs t) := by
  cases p with
  | latest =>
    show Depicts (GreatestOf id) _ (vs.latest t)
    cases hlatest : vs.latest t with
    | none =>
      show {v | v ∈ vs.before t} = ∅
      rw [List.getLast?_eq_none_iff.1 hlatest]
      simp
    | some v =>
      obtain ⟨hv, hgreatest⟩ := (getLast?_eq_some_iff_greatest
        (fun a b => a.timestamp < b.timestamp) (fun a => Std.lt_irrefl) (fun a b c => Std.lt_trans)
        (vs.before_pairwise t)).1 hlatest
      refine ⟨⟨v, hv⟩, ?_⟩
      unfold GreatestOf
      rw [Set.image_id]
      refine ⟨hv, fun w hw => ?_⟩
      rcases hgreatest w hw with rfl | hlt
      · exact Ordering.isLE_of_eq_eq compare_self
      · rw [Value.compare_def, compare_eq_lt.2 hlt]
        rfl
  | history =>
    refine depicts_nonempty fun v => ?_
    rw [Set.image_id]
    exact mem_setOfList
  | timestamps =>
    refine depicts_nonempty fun ts => ?_
    unfold Versions.timestamps
    rw [mem_setOfList, List.mem_map]
    rfl

/-- A cell without an entry has no versions. -/
theorem depicts_bind (p : Projection τ) (m : Memtable) (cell : Cell) (t : Timestamp) :
    Depicts p.view {v | m.version? cell v.timestamp = some v.contents ∧ v.timestamp < t}
      (m.cells[cell]?.bind fun vs => p.project vs t) := by
  unfold Memtable.version?
  cases m.cells[cell]? with
  | none => simp [Depicts]
  | some vs =>
    have hsight := p.depicts_project vs t
    simp only [Versions.mem_before] at hsight
    exact hsight

end Projection

/-- The timestamps of a point read are those of a range read, but for a set without members. -/
theorem Memtable.nonempty_timestampsBefore (m : Memtable) (cell : Cell) (t : Timestamp) :
    Projection.nonempty (m.timestampsBefore cell t) =
      m.cells[cell]?.bind fun vs => Projection.timestamps.project vs t := by
  unfold timestampsBefore
  cases m.cells[cell]? <;> rfl

namespace Store

variable {s : Store} {table : TableName} {cell : Cell} {t : Timestamp}

/-- The versions of a cell that a read sees. -/
def inSight (s : Store) (table : TableName) (cell : Cell) (t : Timestamp) : Set Value :=
  {v | s.version? table cell v.timestamp = some v.contents ∧ v.timestamp < t}

/-- What a projection gives for a cell of a store shows the versions in sight. -/
theorem depicts_cell {τ : Type} (p : Projection τ) (s : Store) (table : TableName) (cell : Cell)
    (t : Timestamp) : Depicts p.view (s.inSight table cell t)
      (s.tables[table]?.bind fun tbl => tbl.data.cells[cell]?.bind fun vs => p.project vs t) := by
  unfold inSight version?
  cases s.tables[table]? with
  | none => simp [Depicts]
  | some tbl => exact p.depicts_bind tbl.data cell t

/-- The answer to a read of a table; there is nothing without the table. -/
theorem bind_query {α : Type} (f : Table → ExtTreeMap Cell α) :
    (s.query table f).toOption.bind (·[cell]?) =
      s.tables[table]?.bind fun tbl => (f tbl)[cell]? := by
  unfold query
  cases s.tables[table]? <;> rfl

section Answers

variable {asked : ExtTreeMap Cell Timestamp}

/-- **The answer to a read of cells** shows the versions in sight of those asked for. -/
theorem depicts_get (s : Store) (table : TableName) (cell : Cell)
    (hasked : ∀ t', asked[cell]? = some t' → t' = t) :
    Depicts (GreatestOf id) {v | cell ∈ asked ∧ v ∈ s.inSight table cell t}
      ((run (.get table asked) s).1.toOption.bind (·[cell]?)) := by
  show Depicts _ _ ((s.query table fun tbl => latestOf tbl asked.toList).toOption.bind (·[cell]?))
  simp only [bind_query, getElem?_get]
  refine depicts_asked (fun hin => ?_) fun hout => ?_
  · obtain ⟨t', ht'⟩ := Option.isSome_iff_exists.1 (ExtTreeMap.mem_iff_isSome_getElem?.1 hin)
    obtain rfl := hasked t' ht'
    rw [ht']
    exact depicts_cell .latest s table cell t'
  · rw [ExtTreeMap.getElem?_eq_none hout]
    cases s.tables[table]? <;> rfl

/-- **The answer to a read of latest timestamps** shows the versions in sight of the cells asked
for. -/
theorem depicts_getLatestTimestamps (s : Store) (table : TableName) (cell : Cell)
    (hasked : ∀ t', asked[cell]? = some t' → t' = t) :
    Depicts (GreatestOf Value.timestamp) {v | cell ∈ asked ∧ v ∈ s.inSight table cell t}
      ((run (.getLatestTimestamps table asked) s).1.toOption.bind (·[cell]?)) := by
  have hget := depicts_get s table cell hasked
  have hmap : (run (.getLatestTimestamps table asked) s).1.toOption.bind (·[cell]?) =
      ((run (.get table asked) s).1.toOption.bind (·[cell]?)).map Value.timestamp := by
    show (s.query table fun tbl => (latestOf tbl asked.toList).map fun _ v => v.timestamp).toOption.bind
      (·[cell]?) = ((s.query table fun tbl => latestOf tbl asked.toList).toOption.bind
        (·[cell]?)).map _
    rw [bind_query, bind_query]
    cases s.tables[table]? with
    | none => rfl
    | some tbl => exact ExtTreeMap.getElem?_map
  rw [hmap]
  cases hvalue : (run (.get table asked) s).1.toOption.bind (·[cell]?) with
  | none => rwa [hvalue] at hget
  | some v =>
    rw [hvalue] at hget
    exact ⟨hget.1, hget.2.timestamp⟩

/-- **The answer to a read of all timestamps** shows the versions in sight of the cells asked for. -/
theorem depicts_getAllTimestamps (s : Store) (table : TableName) (cells : ExtTreeSet Cell)
    (t : Timestamp) (cell : Cell) :
    Depicts (AllOf Value.timestamp) {v | cell ∈ cells ∧ v ∈ s.inSight table cell t}
      ((run (.getAllTimestamps table cells t) s).1.toOption.bind (·[cell]?)) := by
  show Depicts _ _ ((s.query table _).toOption.bind (·[cell]?))
  simp only [bind_query, getElem?_getAllTimestamps]
  refine depicts_asked (fun hin => ?_) fun hout => ?_
  · have hgive : ∀ tbl : Table,
        (if cell ∈ cells ∧ (tbl.data.timestampsBefore cell t).isEmpty = false then
          some (tbl.data.timestampsBefore cell t) else none) =
        tbl.data.cells[cell]?.bind fun vs => Projection.timestamps.project vs t := by
      intro tbl
      rw [← Memtable.nonempty_timestampsBefore]
      unfold Projection.nonempty
      simp only [hin, true_and]
      cases (tbl.data.timestampsBefore cell t).isEmpty <;> rfl
    simp only [hgive]
    exact depicts_cell .timestamps s table cell t
  · simp only [hout, false_and, if_false]
    cases s.tables[table]? <;> rfl

end Answers

end Store

section Merged

variable {τ ι : Type} {view : Set Value → τ → Prop} {join : τ → τ → τ} {cell : Cell}

/-- **Merged answers show the union** of what each shows; where no answer has come nothing is to be
shown. -/
theorem Depicts.foldl_answers
    (hjoin : ∀ {S T x y}, view S x → view T y → view (S ∪ T) (join x y)) {l : List ι}
    {answer : ι → Option (ExtTreeMap Cell τ)} {sight : ι → Set Value}
    (h : ∀ i ∈ l, Depicts view (sight i) ((answer i).bind (·[cell]?))) :
    Depicts view {v | ∃ i ∈ l, v ∈ sight i}
      ((l.filterMap answer).foldl (Merge.joinWith join) ∅)[cell]? := by
  rw [Merge.getElem?_foldl_filterMap]
  exact Depicts.foldl_merge hjoin h

end Merged

/-- The answers to three point reads agree: they have the same cells, and for each of them the time
of the value is the latest timestamp and the greatest of all timestamps. -/
def ViewsAgree (values : ExtTreeMap Cell Value) (latest : ExtTreeMap Cell Timestamp)
    (stamps : ExtTreeMap Cell (ExtTreeSet Timestamp)) : Prop :=
  ∀ cell : Cell, Option.Rel (fun v ts => ts = v.timestamp) values[cell]? latest[cell]? ∧
    Option.Rel (fun v stamps => stamps.max? = some v.timestamp) values[cell]? stamps[cell]?

/-- Some cells, all to be read at one time. -/
def timesAt (cells : ExtTreeSet Cell) (t : Timestamp) : ExtTreeMap Cell Timestamp :=
  ExtTreeMap.ofList (cells.toList.map (·, t)) compare

section SameReplicas

variable {stores : ReplicaId → Store} {table : TableName} {t t' : Timestamp} {cells : ExtTreeSet Cell}
  {cell : Cell}

theorem mem_timesAt : cell ∈ timesAt cells t ↔ cell ∈ cells := by
  unfold timesAt
  rw [mem_mapOfList, List.map_map]
  simp

theorem eq_of_getElem?_timesAt (h : (timesAt cells t)[cell]? = some t') : t' = t := by
  obtain ⟨_, -, heq⟩ := List.mem_map.1 (mem_of_getElem?_mapOfList h)
  cases heq
  rfl

/-- Answers that show what the same replicas have in sight agree. -/
theorem viewsAgree_of_depicts {values : ExtTreeMap Cell Value} {latest : ExtTreeMap Cell Timestamp}
    {stamps : ExtTreeMap Cell (ExtTreeSet Timestamp)} {l₁ l₂ l₃ : List ReplicaId}
    (sight : Cell → ReplicaId → Set Value) (h₂ : ∀ id, id ∈ l₁ ↔ id ∈ l₂) (h₃ : ∀ id, id ∈ l₁ ↔ id ∈ l₃)
    (hvalues : ∀ cell : Cell,
      Depicts (GreatestOf id) {v | ∃ id ∈ l₁, v ∈ sight cell id} values[cell]?)
    (hlatest : ∀ cell : Cell,
      Depicts (GreatestOf Value.timestamp) {v | ∃ id ∈ l₂, v ∈ sight cell id} latest[cell]?)
    (hstamps : ∀ cell : Cell,
      Depicts (AllOf Value.timestamp) {v | ∃ id ∈ l₃, v ∈ sight cell id} stamps[cell]?) :
    ViewsAgree values latest stamps := by
  simp only [← h₂] at hlatest
  simp only [← h₃] at hstamps
  exact fun cell => ⟨(hvalues cell).rel_latest (hlatest cell), (hvalues cell).rel_stamps (hstamps cell)⟩

/-- What the replicas answer that are heard; those that fail give nothing. -/
def answersOf {α : Type} (stores : ReplicaId → Store) (ask : ReplicaId → Verb α)
    (heard : List ReplicaId) : List α :=
  heard.filterMap fun id => (Store.run (ask id) (stores id)).1.toOption

/-- **Point reads that are answered by the same replicas agree**, whatever the replicas hold, whatever
each is asked for, and in whatever order and however often they answer. -/
theorem viewsAgree_of_same {asked : ReplicaId → ExtTreeSet Cell} {l₁ l₂ l₃ : List ReplicaId}
    (h₂ : ∀ id, id ∈ l₁ ↔ id ∈ l₂) (h₃ : ∀ id, id ∈ l₁ ↔ id ∈ l₃) :
    ViewsAgree
      ((answersOf stores (fun id => .get table (timesAt (asked id) t)) l₁).foldl
        Merge.latestValues ∅)
      ((answersOf stores (fun id => .getLatestTimestamps table (timesAt (asked id) t)) l₂).foldl
        Merge.latestTimestamps ∅)
      ((answersOf stores (fun id => .getAllTimestamps table (asked id) t) l₃).foldl
        Merge.allTimestamps ∅) := by
  have htime : ∀ (id : ReplicaId) (cell : Cell) (t' : Timestamp),
      (timesAt (asked id) t)[cell]? = some t' → t' = t := fun _ _ _ => eq_of_getElem?_timesAt
  refine viewsAgree_of_depicts
    (fun cell id => {v | cell ∈ asked id ∧ v ∈ (stores id).inSight table cell t}) h₂ h₃
    (fun cell => ?_) (fun cell => ?_) fun cell => ?_
  · refine Depicts.foldl_answers (GreatestOf.union Merge.takesGreater_newer) fun id _ => ?_
    rw [← mem_timesAt]
    exact (stores id).depicts_get table cell (htime id cell)
  · refine Depicts.foldl_answers (GreatestOf.union Merge.takesGreater_laterTimestamp) fun id _ => ?_
    rw [← mem_timesAt]
    exact (stores id).depicts_getLatestTimestamps table cell (htime id cell)
  · refine Depicts.foldl_answers AllOf.union fun id _ => ?_
    exact (stores id).depicts_getAllTimestamps table (asked id) t cell

end SameReplicas

end QuorumStore
