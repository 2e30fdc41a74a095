import QuorumStore.Cluster.Services
import QuorumStore.Proofs.Cluster.Run
import QuorumStore.Proofs.Store.Convergence

/-!
# Writes are all or nothing

A store that fails to do what a verb asks is left as it was. A batch is refused for what the whole of
it shows before anything is stored: its table is missing, one of its values is too long for the
table, or, where its cells have to be new, one of them has a version. Batches that come as maps have
no order of their own, so nothing of this may depend on the order in which the entries come up.

* `Table.Overlong`, `Table.Taken`: what a batch is refused for.
* `lastOf`: what a batch writes as one version.
* `Store.BatchOutcome`: what has come of a batch, refused or stored.
* `Store.run_eq_of_error`: a verb that fails changes nothing.
* `Table.outcome_write`, `Table.outcome_writeUnlessExists`: when a batch is refused, and as what.
* `Store.update_eq_of_perm`: the order of the entries of a map makes no difference.
* `Store.run_allOrNothing`: **a store does all of what it is asked to do or nothing.**
-/

namespace QuorumStore

open Std

/-- What a batch writes as the version of a cell at a timestamp: of several entries the last. -/
def lastOf (entries : List (Cell × Value)) (cell : Cell) (ts : Timestamp) : Option Bytes :=
  (entries.filter fun e => e.1 = cell ∧ e.2.timestamp = ts).getLast?.map (·.2.contents)

theorem lastOf_cons (e : Cell × Value) (entries : List (Cell × Value)) (cell : Cell)
    (ts : Timestamp) : lastOf (e :: entries) cell ts =
      (lastOf entries cell ts).or
        (if e.1 = cell ∧ e.2.timestamp = ts then some e.2.contents else none) := by
  unfold lastOf
  rw [List.filter_cons]
  by_cases h : e.1 = cell ∧ e.2.timestamp = ts
  · rw [if_pos (by simpa using h), if_pos h, List.getLast?_cons]
    cases (entries.filter fun e => e.1 = cell ∧ e.2.timestamp = ts).getLast? <;> rfl
  · rw [if_neg (by simpa using h), if_neg h, Option.or_none]

namespace Table

variable {t : Table} {fresh : Bool} {entries order : List (Cell × Value)}

/-- Some value of a batch is longer than the table allows. -/
def Overlong (t : Table) (entries : List (Cell × Value)) : Prop :=
  ∃ x ∈ entries, t.maxValueSize < x.2.contents.length

/-- Some cell of a batch has a version. -/
def Taken (t : Table) (entries : List (Cell × Value)) : Prop :=
  ∃ x ∈ entries, ∃ ts, (t.data.version? x.1 ts).isSome = true

/-- **After a batch every version of it is stored**, and all others are as they were. -/
theorem version?_store (t : Table) (entries : List (Cell × Value)) (cell : Cell) (ts : Timestamp) :
    (t.store entries).data.version? cell ts =
      (lastOf entries cell ts).or (t.data.version? cell ts) := by
  unfold store
  dsimp only
  generalize t.data = m
  induction entries generalizing m with
  | nil => rfl
  | cons e entries ih =>
    rw [List.foldl_cons, ih, Memtable.version?_put, lastOf_cons, Option.or_assoc]
    split <;> rfl

/-- What a batch comes to at its table, by what the whole of it shows. -/
inductive Outcome (t : Table) (fresh : Bool) (entries : List (Cell × Value)) :
    Except Failure Table → Prop where
  | taken {x : Cell × Value} (hfresh : fresh = true) (hx : x ∈ entries)
      (hversion : ∃ ts, (t.data.version? x.1 ts).isSome = true) :
      Outcome t fresh entries (.error (.keyExists x.1))
  | overlong {x : Cell × Value} (hnew : fresh = true → ¬ t.Taken entries) (hx : x ∈ entries)
      (hlong : t.maxValueSize < x.2.contents.length) :
      Outcome t fresh entries (.error (.valueTooLarge x.2.contents.length t.maxValueSize))
  | stored (hnew : fresh = true → ¬ t.Taken entries) (hfit : ¬ t.Overlong entries) :
      Outcome t fresh entries (.ok (t.store entries))

/-- A batch that is refused shows why. -/
theorem Outcome.of_error {e : Failure} (h : t.Outcome fresh entries (.error e)) :
    t.Overlong entries ∨ fresh = true ∧ t.Taken entries := by
  cases h with
  | taken hfresh hx hversion => exact Or.inr ⟨hfresh, _, hx, hversion⟩
  | overlong _ hx hlong => exact Or.inl ⟨_, hx, hlong⟩

/-- A batch that is stored shows nothing to refuse it for. -/
theorem Outcome.of_ok {t' : Table} (h : t.Outcome fresh entries (.ok t')) :
    t' = t.store entries ∧ ¬ (t.Overlong entries ∨ fresh = true ∧ t.Taken entries) := by
  cases h with
  | stored hnew hfit => exact ⟨rfl, fun hor => hor.elim hfit fun h => hnew h.1 h.2⟩

/-- What a batch is refused for does not depend on its order. -/
theorem refusable_congr (t : Table) (fresh : Bool) (hsame : ∀ x, x ∈ order ↔ x ∈ entries) :
    t.Overlong order ∨ fresh = true ∧ t.Taken order ↔
      t.Overlong entries ∨ fresh = true ∧ t.Taken entries := by
  unfold Overlong Taken
  simp only [hsame]

/-- The sizes of a batch are checked one after the other; the first that is too long ends it. -/
theorem forM_checkSize_cases (t : Table) (entries : List (Cell × Value)) :
    (entries.forM fun e => t.checkSize e.2.contents) = .ok () ∨
      ∃ x ∈ entries, t.maxValueSize < x.2.contents.length ∧
        (entries.forM fun e => t.checkSize e.2.contents) =
          .error (.valueTooLarge x.2.contents.length t.maxValueSize) := by
  induction entries with
  | nil => exact Or.inl rfl
  | cons e entries ih =>
    have hcons : ((e :: entries).forM fun e => t.checkSize e.2.contents) =
        (t.checkSize e.2.contents >>= fun _ => entries.forM fun e => t.checkSize e.2.contents) := rfl
    rw [hcons]
    by_cases hlong : t.maxValueSize < e.2.contents.length
    · have hcheck : t.checkSize e.2.contents =
          .error (.valueTooLarge e.2.contents.length t.maxValueSize) := if_pos hlong
      rw [hcheck]
      exact Or.inr ⟨e, List.mem_cons_self, hlong, rfl⟩
    · have hcheck : t.checkSize e.2.contents = .ok () := if_neg hlong
      rw [hcheck]
      rcases ih with hok | ⟨x, hx, hlen, herror⟩
      · exact Or.inl hok
      · exact Or.inr ⟨x, List.mem_cons_of_mem _ hx, hlen, herror⟩

theorem outcome_write (hnew : fresh = true → ¬ t.Taken entries) :
    t.Outcome fresh entries (t.write entries) := by
  rcases t.forM_checkSize_cases entries with hok | ⟨x, hx, hlong, herror⟩
  · have hfit : ¬ t.Overlong entries := by
      rintro ⟨x, hx, hlong⟩
      exact Nat.not_lt.2 (forM_checkSize_eq_ok_iff.1 hok x hx) hlong
    rw [write_eq_ok_iff.2 ⟨forM_checkSize_eq_ok_iff.1 hok, rfl⟩]
    exact .stored hnew hfit
  · have hwrite : t.write entries = .error (.valueTooLarge x.2.contents.length t.maxValueSize) := by
      unfold write
      rw [herror]
      rfl
    rw [hwrite]
    exact .overlong hnew hx hlong

theorem outcome_writeUnlessExists (t : Table) (entries : List (Cell × Value)) :
    t.Outcome true entries (t.writeUnlessExists entries) := by
  unfold writeUnlessExists
  cases hfind : entries.find? fun e => t.data.contains e.1 with
  | some x =>
    have hcontains : t.data.contains x.1 = true :=
      List.find?_some (p := fun x : Cell × Value => t.data.contains x.1) hfind
    exact .taken rfl (List.mem_of_find?_eq_some hfind) (Memtable.contains_iff.1 hcontains)
  | none =>
    refine outcome_write fun _ htaken => ?_
    obtain ⟨x, hx, hversion⟩ := htaken
    exact List.find?_eq_none.1 hfind x hx (Memtable.contains_iff.2 hversion)

end Table

namespace Store

variable {s : Store} {table : TableName} {fresh : Bool} {entries order : List (Cell × Value)}

/-- What has come of a batch for a table, where `fresh` says whether its cells have to be new. -/
structure BatchOutcome (s : Store) (table : TableName) (fresh : Bool)
    (entries : List (Cell × Value)) (outcome : Except Failure Unit × Store) : Prop where
  /-- It is refused exactly if its table is missing, a value of it is too long, or a cell of it that
  has to be new has a version. -/
  refused_iff : (∃ e, outcome.1 = .error e) ↔ s.tables[table]? = none ∨
    ∃ t, s.tables[table]? = some t ∧ (t.Overlong entries ∨ fresh = true ∧ t.Taken entries)
  missing : s.tables[table]? = none → outcome.1 = .error (.tableNotFound table)
  /-- A cell with a version comes before any value that is too long. -/
  taken : ∀ t, s.tables[table]? = some t → fresh = true → t.Taken entries →
    ∃ x ∈ entries, (∃ ts, s.Holds table x.1 ts) ∧ outcome.1 = .error (.keyExists x.1)
  overlong : ∀ t, s.tables[table]? = some t → (fresh = true → ¬ t.Taken entries) →
    t.Overlong entries → ∃ x ∈ entries, t.maxValueSize < x.2.contents.length ∧
      outcome.1 = .error (.valueTooLarge x.2.contents.length t.maxValueSize)
  unchanged : ∀ e, outcome.1 = .error e → outcome.2 = s
  /-- Where it is stored, each of its versions is there, and nothing else is different. -/
  stored : outcome.1 = .ok () → ∃ t t', s.tables[table]? = some t ∧
    outcome.2.tables[table]? = some t' ∧
    t'.maxValueSize = t.maxValueSize ∧ t'.metadata = t.metadata ∧
    ∀ cell ts, t'.data.version? cell ts = (lastOf entries cell ts).or (t.data.version? cell ts)
  others : ∀ other, other ≠ table → outcome.2.tables[other]? = s.tables[other]?

/-- What a batch comes to at its table is what it comes to at the store. -/
theorem batchOutcome_update {f : Table → Except Failure Table}
    (hf : ∀ t : Table, t.Outcome fresh entries (f t)) :
    s.BatchOutcome table fresh entries (s.update table f) := by
  unfold update
  cases htable : s.tables[table]? with
  | none =>
    exact {
      refused_iff := ⟨fun _ => Or.inl htable, fun _ => ⟨_, rfl⟩⟩
      missing := fun _ => rfl
      taken := fun t ht => nomatch htable.symm.trans ht
      overlong := fun t ht => nomatch htable.symm.trans ht
      unchanged := fun _ _ => rfl
      stored := fun hok => nomatch hok
      others := fun _ _ => rfl }
  | some t =>
    have hone : ∀ t', s.tables[table]? = some t' → t' = t := fun t' ht' =>
      Option.some.inj (ht'.symm.trans htable)
    have hthere : ¬ s.tables[table]? = none := by
      rw [htable]
      exact Option.some_ne_none t
    have houtcome := hf t
    dsimp only
    generalize f t = result at houtcome
    cases houtcome with
    | @taken x hfresh hx hversion =>
      have htaken : t.Taken entries := ⟨x, hx, hversion⟩
      obtain ⟨ts, hts⟩ := hversion
      exact {
        refused_iff := ⟨fun _ => Or.inr ⟨t, htable, Or.inr ⟨hfresh, htaken⟩⟩, fun _ => ⟨_, rfl⟩⟩
        missing := fun hnone => absurd hnone hthere
        taken := fun _ _ _ _ => ⟨x, hx, ⟨ts, holds_iff.2 ⟨t, htable, hts⟩⟩, rfl⟩
        overlong := fun t' ht' hnew => by
          obtain rfl := hone t' ht'
          exact absurd htaken (hnew hfresh)
        unchanged := fun _ _ => rfl
        stored := fun hok => nomatch hok
        others := fun _ _ => rfl }
    | @overlong x hnew hx hlong =>
      exact {
        refused_iff := ⟨fun _ => Or.inr ⟨t, htable, Or.inl ⟨x, hx, hlong⟩⟩, fun _ => ⟨_, rfl⟩⟩
        missing := fun hnone => absurd hnone hthere
        taken := fun t' ht' hfresh htaken => by
          obtain rfl := hone t' ht'
          exact absurd htaken (hnew hfresh)
        overlong := fun t' ht' _ _ => by
          obtain rfl := hone t' ht'
          exact ⟨x, hx, hlong, rfl⟩
        unchanged := fun _ _ => rfl
        stored := fun hok => nomatch hok
        others := fun _ _ => rfl }
    | stored hnew hfit =>
      exact {
        refused_iff := by
          constructor
          · rintro ⟨e, herror⟩
            cases herror
          · rintro (hnone | ⟨t', ht', hlong | ⟨hfresh, htaken⟩⟩)
            · exact absurd hnone hthere
            · obtain rfl := hone t' ht'
              exact absurd hlong hfit
            · obtain rfl := hone t' ht'
              exact absurd htaken (hnew hfresh)
        missing := fun hnone => absurd hnone hthere
        taken := fun t' ht' hfresh htaken => by
          obtain rfl := hone t' ht'
          exact absurd htaken (hnew hfresh)
        overlong := fun t' ht' _ hlong => by
          obtain rfl := hone t' ht'
          exact absurd hlong hfit
        unchanged := fun _ herror => nomatch herror
        stored := fun _ => ⟨t, t.store entries, htable, ExtTreeMap.getElem?_insert_self, rfl, rfl,
          t.version?_store entries⟩
        others := fun other hne => by
          rw [ExtTreeMap.getElem?_insert, if_neg fun h => hne (LawfulEqOrd.eq_of_compare h).symm] }

/-- **A verb that fails changes nothing.** -/
theorem run_eq_of_error {α : Type} {v : Verb α} {e : Failure} (herror : (run v s).1 = .error e) :
    (run v s).2 = s := by
  have hupdate : ∀ {table : TableName} {f : Table → Except Failure Table},
      (s.update table f).1 = .error e → (s.update table f).2 = s := by
    intro table f hfail
    rcases s.update_cases table f with ⟨e', heq⟩ | ⟨t, t', -, -, heq⟩
    · rw [heq]
    · rw [heq] at hfail
      cases hfail
  cases v with
  | put | putWithTimestamps | putUnlessExists | delete | addSentinels | truncateTable
  | putMetadata => exact hupdate herror
  -- these have no way to fail
  | createTable | dropTable | teardown => cases herror
  -- the others leave the tables alone
  | getRows | get | getLatestTimestamps | getAllTimestamps | tableNames | getMetadata | allMetadata
  | compact | prepareFresh | close => rfl

/-- The entries of a map agree: each cell comes up once. -/
theorem agreeing_entriesAt (values : ExtTreeMap Cell Bytes) (ts : Timestamp) :
    Table.Agreeing (entriesAt values ts) := by
  rintro ⟨c, v⟩ hv ⟨c', w⟩ hw hcell -
  obtain rfl : c = c' := hcell
  have hget := (mem_entriesAt.1 hv).1.symm.trans (mem_entriesAt.1 hw).1
  exact Option.some.inj hget

/-- A map of contents comes to the same store in whatever order its entries come up. -/
theorem update_eq_of_perm {f g : Table → Except Failure Table} {values : ExtTreeMap Cell Bytes}
    {ts : Timestamp} (horder : order.Perm (entriesAt values ts))
    (hf : ∀ t : Table, t.Outcome fresh order (f t))
    (hg : ∀ t : Table, t.Outcome fresh (entriesAt values ts) (g t)) :
    (s.update table f).2 = (s.update table g).2 := by
  unfold update
  cases s.tables[table]? with
  | none => rfl
  | some t =>
    have hrefusable := t.refusable_congr fresh fun x => horder.mem_iff
    have hsame : t.store order = t.store (entriesAt values ts) :=
      (t.store_of_same (agreeing_entriesAt values ts) fun x => horder.mem_iff.symm).symm
    have hft := hf t
    have hgt := hg t
    dsimp only
    cases hfirst : f t with
    | error e =>
      rw [hfirst] at hft
      cases hsecond : g t with
      | error e' => rfl
      | ok t' =>
        rw [hsecond] at hgt
        exact absurd (hrefusable.1 hft.of_error) hgt.of_ok.2
    | ok t₁ =>
      rw [hfirst] at hft
      cases hsecond : g t with
      | error e' =>
        rw [hsecond] at hgt
        exact absurd (hrefusable.2 hgt.of_error) hft.of_ok.2
      | ok t₂ =>
        rw [hsecond] at hgt
        rw [hft.of_ok.1, hgt.of_ok.1, hsame]

/-- **A replica does all of what it is asked to do or nothing.** A verb that fails leaves the
store as it was, and so does every range read. A batch is refused exactly if its table is missing, a
value of it is too long or a cell of it that has to be new has a version, where such a cell is
reported before any value; otherwise each entry is stored, and of several for one version the last.
A map of contents comes to the same in whatever order its entries are gone through. -/
theorem run_allOrNothing :
    (∀ {α : Type} (v : Verb α) (s : Store) (e : Failure),
      (run v s).1 = .error e → (run v s).2 = s) ∧
    (∀ {τ : Type} (id : ReplicaId) (projection : Projection τ) (table : TableName)
      (range : RowRange) (t : Timestamp) (c : Cluster),
      (((bareService id).openRange projection table range t).run.run c).2 = c) ∧
    (∀ (s : Store) (table : TableName) (entries : List (Cell × Value)),
      s.BatchOutcome table false entries (run (.putWithTimestamps table entries) s)) ∧
    (∀ (s : Store) (table : TableName) (values : ExtTreeMap Cell Bytes) (ts : Timestamp),
      s.BatchOutcome table false (entriesAt values ts) (run (.put table values ts) s) ∧
      ∀ order, order.Perm (entriesAt values ts) →
        s.BatchOutcome table false order (s.update table (·.write order)) ∧
        (s.update table (·.write order)).2 = (run (.put table values ts) s).2) ∧
    ∀ (s : Store) (table : TableName) (values : ExtTreeMap Cell Bytes),
      s.BatchOutcome table true (entriesAt values 0) (run (.putUnlessExists table values) s) ∧
      ∀ order, order.Perm (entriesAt values 0) →
        s.BatchOutcome table true order (s.update table (·.writeUnlessExists order)) ∧
        (s.update table (·.writeUnlessExists order)).2 =
          (run (.putUnlessExists table values) s).2 := by
  have hwrite : ∀ (entries : List (Cell × Value)) (t : Table),
      t.Outcome false entries (t.write entries) :=
    fun _ _ => Table.outcome_write fun hfresh => nomatch hfresh
  have hunless : ∀ (entries : List (Cell × Value)) (t : Table),
      t.Outcome true entries (t.writeUnlessExists entries) :=
    fun entries t => t.outcome_writeUnlessExists entries
  refine ⟨fun _ _ _ herror => run_eq_of_error herror, ?_, ?_, ?_, ?_⟩
  · intro τ id projection table range t c
    show ((Run.openStore id ⟨projection, table, t⟩ range).run.run c).2 = c
    unfold Run.openStore
    rw [Run.run_bind_ok (Run.run_get c)]
    cases c.replicas[id]? <;> rfl
  · exact fun s table entries => batchOutcome_update (hwrite entries)
  · intro s table values ts
    refine ⟨batchOutcome_update (hwrite _), fun order horder => ?_⟩
    exact ⟨batchOutcome_update (hwrite order), update_eq_of_perm horder (hwrite order) (hwrite _)⟩
  · intro s table values
    refine ⟨batchOutcome_update (hunless _), fun order horder => ?_⟩
    exact ⟨batchOutcome_update (hunless order),
      update_eq_of_perm horder (hunless order) (hunless _)⟩

section FullTable

/-- A replica with a table for short values that has a version of one cell. -/
def fullReplica : Store :=
  ⟨ExtTreeMap.ofList
    [("t", { maxValueSize := 2, data := (({} : Memtable).put ⟨[1], [1]⟩ 3 [7]) })] compare⟩

/-- A batch of a value that is too long and one for a cell that has a version. -/
def badBatch : ExtTreeMap Cell Bytes :=
  ExtTreeMap.ofList [(⟨[0], [1]⟩, [1, 2, 3]), (⟨[1], [1]⟩, [4])] compare

/-- Two entries for one version. -/
def twiceWritten : List (Cell × Value) := [(⟨[1], [1]⟩, ⟨[5], 3⟩), (⟨[1], [1]⟩, ⟨[6], 3⟩)]

/-- A bad batch leaves the table as it was, and the later of two entries is the one that is kept. -/
theorem run_fullReplica :
    (run (.putUnlessExists "t" badBatch) fullReplica).1 = .error (.keyExists ⟨[1], [1]⟩) ∧
      (run (.putUnlessExists "t" badBatch) fullReplica).2 = fullReplica ∧
      (run (.put "t" badBatch 5) fullReplica).1 = .error (.valueTooLarge 3 2) ∧
      (run (.put "t" badBatch 5) fullReplica).2 = fullReplica ∧
      (run (.putWithTimestamps "t" twiceWritten) fullReplica).1 = .ok () ∧
      (run (.putWithTimestamps "t" twiceWritten) fullReplica).2.version? "t" ⟨[1], [1]⟩ 3 =
        some [6] := by
  obtain ⟨hfails, -, htimed, -, -⟩ := run_allOrNothing
  have htaken : (run (.putUnlessExists "t" badBatch) fullReplica).1 =
      .error (.keyExists ⟨[1], [1]⟩) := by decide
  have hlong : (run (.put "t" badBatch 5) fullReplica).1 = .error (.valueTooLarge 3 2) := by decide
  have hok : (run (.putWithTimestamps "t" twiceWritten) fullReplica).1 = .ok () := by decide
  refine ⟨htaken, hfails _ _ _ htaken, hlong, hfails _ _ _ hlong, hok, ?_⟩
  obtain ⟨t, t', -, ht', -, -, hversion⟩ := (htimed fullReplica "t" twiceWritten).stored hok
  have hlast : lastOf twiceWritten ⟨[1], [1]⟩ 3 = some [6] := by decide
  unfold version?
  rw [ht', Option.bind_some, hversion, hlast]
  rfl

end FullTable

end Store

end QuorumStore
