import QuorumStore.Proofs.Store.Shard

/-!
# Replicas converge

The writes of versions reach the replicas of a row in different orders, cut into different batches,
late or twice. Where no two of them have different contents for one cell and timestamp, the replicas
end with the same tables all the same: every write that succeeds comes to storing its entries, so a
run comes to storing all entries of its writes one after the other, and what is stored then depends
on the set of the entries only.

* `Verb.batch?`, `Verb.entriesFor`: what a write of versions stores.
* `Store.runAll`: a sequence of verbs that all succeed.
* `Table.store_append`, `Table.store_of_same`: batches one after the other, and those with the same
  entries.
* `Store.tables_runAll`: **writes that succeed store the entries of all of them.**
* `Store.runAll_of_same`: **replicas that were written the same versions are the same.**
-/

namespace QuorumStore

open Std

/-- Tables with the same cells and the same versions of each are the same. -/
theorem Memtable.ext_versions {m m' : Memtable}
    (hmem : ∀ cell : Cell, cell ∈ m.cells ↔ cell ∈ m'.cells)
    (hversion : ∀ cell ts, m.version? cell ts = m'.version? cell ts) : m = m' := by
  refine ext_cells fun cell => ?_
  have hcell := hmem cell
  rw [ExtTreeMap.mem_iff_isSome_getElem?, ExtTreeMap.mem_iff_isSome_getElem?] at hcell
  unfold version? at hversion
  have hbind := hversion cell
  cases hvs : m.cells[cell]? with
  | none =>
    rw [hvs] at hcell
    exact (Option.not_isSome_iff_eq_none.1 (hcell.not.1 Bool.false_ne_true)).symm
  | some vs =>
    rw [hvs] at hcell hbind
    obtain ⟨vs', hvs'⟩ := Option.isSome_iff_exists.1 (hcell.1 rfl)
    rw [hvs'] at hbind ⊢
    exact congrArg some (ExtTreeMap.ext_getElem? hbind)

namespace Table

variable {xs ys : List (Cell × Value)} {cell : Cell} {ts : Timestamp}

theorem store_append (t : Table) (xs ys : List (Cell × Value)) :
    t.store (xs ++ ys) = (t.store xs).store ys := by
  unfold store
  rw [List.foldl_append]

/-- After a batch a table has the cells it had and those of the batch. -/
theorem mem_cells_store (t : Table) (xs : List (Cell × Value)) :
    cell ∈ (t.store xs).data.cells ↔ cell ∈ t.data.cells ∨ ∃ v, (cell, v) ∈ xs := by
  unfold store
  dsimp only
  generalize t.data = m
  induction xs generalizing m with
  | nil => simp
  | cons x xs ih =>
    obtain ⟨c, v⟩ := x
    have hput : cell ∈ (m.put c v.timestamp v.contents).cells ↔ cell ∈ m.cells ∨ cell = c := by
      unfold Memtable.put
      rw [ExtTreeMap.mem_insert, LawfulEqOrd.compare_eq_iff_eq, or_comm, eq_comm]
    rw [List.foldl_cons, ih, hput, or_assoc]
    simp only [List.mem_cons, Prod.mk.injEq, exists_or, exists_and_left, exists_eq, and_true]

/-- Each version of a table after a batch is one of the batch, or is as it was. -/
theorem version?_store_cases (t : Table) (xs : List (Cell × Value)) (cell : Cell) (ts : Timestamp) :
    (∃ contents, (cell, ⟨contents, ts⟩) ∈ xs ∧
      (t.store xs).data.version? cell ts = some contents) ∨
    (∀ contents, (cell, ⟨contents, ts⟩) ∉ xs) ∧
      (t.store xs).data.version? cell ts = t.data.version? cell ts := by
  unfold store
  dsimp only
  generalize t.data = m
  induction xs generalizing m with
  | nil => exact Or.inr ⟨fun _ => List.not_mem_nil, rfl⟩
  | cons x xs ih =>
    obtain ⟨c, v⟩ := x
    rw [List.foldl_cons]
    rcases ih (m.put c v.timestamp v.contents) with ⟨contents, hmem, hv⟩ | ⟨hnone, hv⟩
    · exact Or.inl ⟨contents, List.mem_cons_of_mem _ hmem, hv⟩
    · -- none of the later entries is about this version, so the first one decides
      rw [Memtable.version?_put] at hv
      by_cases h : c = cell ∧ v.timestamp = ts
      · rw [if_pos h] at hv
        obtain ⟨rfl, rfl⟩ := h
        exact Or.inl ⟨v.contents, List.mem_cons_self, hv⟩
      · rw [if_neg h] at hv
        refine Or.inr ⟨fun contents hmem => ?_, hv⟩
        rcases List.mem_cons.1 hmem with heq | hmem
        · cases heq
          exact h ⟨rfl, rfl⟩
        · exact hnone contents hmem

/-- Whether no two of some entries have different contents for one cell and timestamp. -/
def Agreeing (xs : List (Cell × Value)) : Prop :=
  ∀ x ∈ xs, ∀ y ∈ xs, x.1 = y.1 → x.2.timestamp = y.2.timestamp → x.2.contents = y.2.contents

instance : Decidable (Agreeing xs) :=
  inferInstanceAs (Decidable (∀ x ∈ xs, ∀ y ∈ xs,
    x.1 = y.1 → x.2.timestamp = y.2.timestamp → x.2.contents = y.2.contents))

/-- **Batches with the same entries store the same**, in any order and with any repetitions, if
their entries agree. -/
theorem store_of_same (t : Table) (hagree : Agreeing xs) (hsame : ∀ e, e ∈ xs ↔ e ∈ ys) :
    t.store xs = t.store ys := by
  have hversion : ∀ cell ts,
      (t.store xs).data.version? cell ts = (t.store ys).data.version? cell ts := by
    intro cell ts
    rcases t.version?_store_cases xs cell ts with ⟨a, ha, hxs⟩ | ⟨hnone, hxs⟩ <;>
      rcases t.version?_store_cases ys cell ts with ⟨b, hb, hys⟩ | ⟨hnone', hys⟩
    · have hcontents : a = b := hagree _ ha _ ((hsame _).2 hb) rfl rfl
      rw [hxs, hys, hcontents]
    · exact absurd ((hsame _).1 ha) (hnone' a)
    · exact absurd ((hsame _).2 hb) (hnone b)
    · rw [hxs, hys]
  have hmem : ∀ cell : Cell, cell ∈ (t.store xs).data.cells ↔ cell ∈ (t.store ys).data.cells := by
    intro cell
    simp only [mem_cells_store, hsame]
  have hdata : (t.store xs).data = (t.store ys).data := Memtable.ext_versions hmem hversion
  show ({ t with data := (t.store xs).data } : Table) = { t with data := (t.store ys).data }
  rw [hdata]

end Table

namespace Verb

variable {α : Type}

/-- The entries that a write of versions stores, with the table it is for. -/
def batch? : Verb α → Option (TableName × List (Cell × Value))
  | .put table values ts => some (table, entriesAt values ts)
  | .putWithTimestamps table entries => some (table, entries)
  | .putUnlessExists table values => some (table, entriesAt values 0)
  | .addSentinels table cells => some (table, cells.toList.map (·, Value.sentinel))
  | _ => none

/-- Whether a verb is a write of versions. -/
def IsWrite (v : Verb α) : Prop := v.batch?.isSome = true

instance (v : Verb α) : Decidable v.IsWrite :=
  inferInstanceAs (Decidable (v.batch?.isSome = true))

/-- The entries that a write of versions stores in a table. -/
def entriesFor (table : TableName) (v : Verb α) : List (Cell × Value) :=
  match v.batch? with
  | some (other, entries) => if other = table then entries else []
  | none => []

end Verb

namespace Store

variable {s s' s₁ s₂ : Store} {vs ws : List (Verb Unit)}

/-- **A write that succeeds** stores its entries. -/
theorem tables_run_of_isWrite {α : Type} {v : Verb α} {a : α} (hwrite : v.IsWrite)
    (hok : run v s = (.ok a, s')) (table : TableName) :
    s'.tables[table]? = s.tables[table]?.map (·.store (v.entriesFor table)) := by
  have hstored : ∀ {other : TableName} {entries : List (Cell × Value)}
      {f : Table → Except Failure Table}, (∀ t t', f t = .ok t' → t' = t.store entries) →
      (∃ a, s.update other f = (.ok a, s')) →
      s'.tables[table]? = s.tables[table]?.map (·.store (if other = table then entries else [])) := by
    rintro other entries f hstore ⟨a, hupdate⟩
    rcases s.update_cases other f with ⟨e, heq⟩ | ⟨t, t', ht, hf, heq⟩
    · rw [heq] at hupdate
      cases hupdate
    · rw [heq] at hupdate
      cases hupdate
      rw [ExtTreeMap.getElem?_insert]
      by_cases hsame : other = table
      · subst hsame
        rw [if_pos compare_self, if_pos rfl, ht, hstore t t' hf]
        rfl
      · rw [if_neg fun hc => hsame (LawfulEqOrd.eq_of_compare hc), if_neg hsame]
        exact Option.map_id'.symm
  cases v with
  | put other values ts => exact hstored (fun _ _ => Table.eq_store_of_write) ⟨a, hok⟩
  | putWithTimestamps other entries => exact hstored (fun _ _ => Table.eq_store_of_write) ⟨a, hok⟩
  | putUnlessExists other values =>
    exact hstored (fun _ _ hf => (Table.of_writeUnlessExists hf).1) ⟨a, hok⟩
  | addSentinels other cells => exact hstored (fun _ _ hf => (Except.ok.inj hf).symm) ⟨a, hok⟩
  | _ => cases hwrite

/-- The store after a sequence of verbs that all succeed, or the first failure. -/
def runAll : List (Verb Unit) → Store → Except Failure Store
  | [], s => .ok s
  | v :: vs, s =>
    match run v s with
    | (.error e, _) => .error e
    | (.ok (), s') => runAll vs s'

/-- The entries that a sequence of writes stores in a table. -/
def written (vs : List (Verb Unit)) (table : TableName) : List (Cell × Value) :=
  vs.flatMap (·.entriesFor table)

/-- **Writes that succeed store the entries of all of them**, and do nothing else. -/
theorem tables_runAll (hwrites : ∀ v ∈ vs, v.IsWrite) (hok : runAll vs s = .ok s')
    (table : TableName) : s'.tables[table]? = s.tables[table]?.map (·.store (written vs table)) := by
  induction vs generalizing s with
  | nil =>
    cases hok
    exact Option.map_id'.symm
  | cons v vs ih =>
    rw [List.forall_mem_cons] at hwrites
    unfold runAll at hok
    split at hok
    · cases hok
    · rename_i next hrun
      rw [ih hwrites.2 hok, tables_run_of_isWrite hwrites.1 hrun, Option.map_map]
      refine congrFun (congrArg Option.map (funext fun t => ?_)) _
      exact (t.store_append _ _).symm

/-- **Replicas converge.** Two replicas that start equal and to which the same versions have been
written, by calls that succeeded and in which no two writes have different contents for one cell and
timestamp, are equal: in whatever order the versions were written, in whatever batches and however
often. So they answer every read in the same way. -/
theorem runAll_of_same (hvs : ∀ v ∈ vs, v.IsWrite) (hws : ∀ w ∈ ws, w.IsWrite)
    (hsame : ∀ table e, e ∈ written vs table ↔ e ∈ written ws table)
    (hagree : ∀ table, Table.Agreeing (written vs table))
    (hfirst : runAll vs s = .ok s₁) (hsecond : runAll ws s = .ok s₂) :
    s₁ = s₂ ∧ (∀ {α : Type} (read : Verb α), (run read s₁).1 = (run read s₂).1) ∧
      ∀ {τ : Type} (table : TableName) (range : RowRange) (t : Timestamp) (read : Projection τ),
        s₁.scan table range t read = s₂.scan table range t read := by
  have heq : s₁ = s₂ := by
    refine ext_tables fun table => ?_
    rw [tables_runAll hvs hfirst, tables_runAll hws hsecond]
    refine congrFun (congrArg Option.map (funext fun t => ?_)) _
    exact t.store_of_same (hagree table) (hsame table)
  subst heq
  exact ⟨rfl, fun _ => rfl, fun _ _ _ _ => rfl⟩

section TwoReplicas

/-- A replica with an empty table. -/
def freshReplica : Store := ⟨ExtTreeMap.ofList [("t", { maxValueSize := 4 })] compare⟩

/-- The writes as they were made. -/
def writtenInTime : List (Verb Unit) :=
  [.putUnlessExists "t" (ExtTreeMap.ofList [(⟨[1], [1]⟩, [7])] compare),
    .put "t" (ExtTreeMap.ofList [(⟨[1], [1]⟩, [8]), (⟨[2], []⟩, [9])] compare) 5,
    .addSentinels "t" (ExtTreeSet.ofList [⟨[1], [1]⟩] compare)]

/-- The same versions in another order and in other batches, some of them twice. -/
def writtenLate : List (Verb Unit) :=
  [.addSentinels "t" (ExtTreeSet.ofList [⟨[1], [1]⟩] compare),
    .put "t" (ExtTreeMap.ofList [(⟨[2], []⟩, [9])] compare) 5,
    .putWithTimestamps "t" [(⟨[1], [1]⟩, ⟨[8], 5⟩), (⟨[1], [1]⟩, ⟨[7], 0⟩), (⟨[1], [1]⟩, ⟨[8], 5⟩)],
    .put "t" (ExtTreeMap.ofList [(⟨[2], []⟩, [9])] compare) 5]

/-- A replica that gets the writes late comes to the same. -/
theorem runAll_late : (runAll writtenInTime freshReplica).isOk = true ∧
    runAll writtenInTime freshReplica = runAll writtenLate freshReplica := by
  have hok : (runAll writtenInTime freshReplica).isOk = true := by decide
  have hok' : (runAll writtenLate freshReplica).isOk = true := by decide
  cases hfirst : runAll writtenInTime freshReplica with
  | error e => rw [hfirst] at hok; cases hok
  | ok s₁ =>
    cases hsecond : runAll writtenLate freshReplica with
    | error e => rw [hsecond] at hok'; cases hok'
    | ok s₂ =>
      -- nothing is written to any other table
      have hother : ∀ {table : TableName}, ¬ "t" = table →
          written writtenInTime table = [] ∧ written writtenLate table = [] := by
        intro table h
        constructor <;> simp [written, writtenInTime, writtenLate, Verb.entriesFor, Verb.batch?, h]
      have hsame : ∀ table e, e ∈ written writtenInTime table ↔ e ∈ written writtenLate table := by
        intro table e
        by_cases h : "t" = table
        · subst h
          have hsub : ∀ e ∈ written writtenInTime "t", e ∈ written writtenLate "t" := by decide
          have hsup : ∀ e ∈ written writtenLate "t", e ∈ written writtenInTime "t" := by decide
          exact ⟨hsub e, hsup e⟩
        · rw [(hother h).1, (hother h).2]
      have hagree : ∀ table, Table.Agreeing (written writtenInTime table) := by
        intro table
        by_cases h : "t" = table
        · subst h
          decide
        · rw [(hother h).1]
          exact fun _ hx => absurd hx List.not_mem_nil
      obtain ⟨rfl, -⟩ := runAll_of_same (by decide) (by decide) hsame hagree hfirst hsecond
      exact ⟨rfl, rfl⟩

end TwoReplicas

end Store

end QuorumStore
