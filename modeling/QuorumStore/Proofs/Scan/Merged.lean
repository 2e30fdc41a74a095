import QuorumStore.Proofs.Cursor
import QuorumStore.Proofs.Scan.MergedRows

/-!
# Merged scans

A merged scan is drained. Whatever the replicas of a sub-range deliver before they end or fail is
merged, one sub-range after the other, and no failure of a replica reaches the reader.

* `Lookahead.Holds`, `Lookahead.Ahead`: the rows still to come from a cursor with lookahead.
* `MergedScan.smallest_spec`: the least key, and the cursors that go on.
* `MergedScan.takeRow_spec`: the join of the copies of a row, and what is left without them.
* `MergedScan.Opens`: what the replicas of each sub-range deliver.
* `MergedScan.advance_spec`: the next row of a scan, and the scan after it.
* `OpenScan.drain_isMerge`: **a drained scan is the exact merge, sub-range after sub-range.**
-/

namespace QuorumStore

open Std Std.Do

section Lookahead

variable (m : Type → Type) [Monad m] {ps : PostShape.{0}} [WPMonad m ps] {σ τ : Type}
  [Cursor m σ (Row τ)]

/-- The rows still to come from a cursor that may have read one ahead. -/
def Lookahead.Holds (I : Assertion ps) (rows : List (Row τ)) (c : Lookahead σ τ) : Prop :=
  c.done = false ∧ match c.peeked with
  | none => Cursor.Delivers m (fun _ => I) rows c.cursor
  | some row => ∃ rest, rows = row :: rest ∧ Cursor.Delivers m (fun _ => I) rest c.cursor

/-- The rows still to come from a cursor that has read one ahead. -/
def Lookahead.Ahead (I : Assertion ps) (rows : List (Row τ)) (c : Lookahead σ τ) : Prop :=
  c.done = false ∧ ∃ row rest, rows = row :: rest ∧ c.peeked = some row ∧
    Cursor.Delivers m (fun _ => I) rest c.cursor

/-- What each replica of a sub-range delivers: nothing if its cursor does not open. -/
def Opened (I : Assertion ps) :
    List (ReplicaId × Except Failure σ) → List (List (Row τ)) → Prop :=
  List.Forall₂ fun answer rows =>
    match answer.2 with
    | .error _ => rows = []
    | .ok cursor => Cursor.Delivers m (fun _ => I) rows cursor

end Lookahead

variable {m : Type → Type} [Monad m] {ps : PostShape.{0}} [WPMonad m ps] {σ τ : Type}
  [Cursor m σ (Row τ)]

section Steps

variable {I : Assertion ps} {c : Lookahead σ τ}

namespace Lookahead

theorem Ahead.holds {rows : List (Row τ)} (h : Ahead m I rows c) : Holds m I rows c := by
  obtain ⟨hdone, row, rest, rfl, hpeeked, hrest⟩ := h
  unfold Holds
  rw [hpeeked]
  exact ⟨hdone, rest, rfl, hrest⟩

/-- **Peeking** finds the next row and keeps it, or finds that there is none. -/
theorem peek_spec {rows : List (Row τ)} (h : Holds m I rows c) :
    ⦃I⦄ (c.peek : m _)
    ⦃⇓ r => ⌜match rows with
      | [] => ∀ key, r.1 ≠ .ok (some key)
      | row :: _ => r.1 = .ok (some row.key) ∧ Ahead m I rows r.2⌝ ∧ I⦄ := by
  unfold Holds at h
  unfold peek
  cases hpeeked : c.peeked with
  | some row =>
    rw [hpeeked] at h
    obtain ⟨hdone, rest, rfl, hrest⟩ := h
    exact Hoare.pure ⟨rfl, hdone, row, rest, rfl, hpeeked, hrest⟩ .rfl
  | none =>
    rw [hpeeked] at h
    obtain ⟨hdone, hrows⟩ := h
    simp only [Option.isNone_none, hdone, Bool.not_false, Bool.and_self, if_true]
    cases rows with
    | nil =>
      refine Hoare.bind hrows ?_
      rintro ⟨result, cursor⟩ hend
      cases result with
      | error e => exact Hoare.pure (by simp) .rfl
      | ok next =>
        cases next with
        | none => exact Hoare.pure (by simp) .rfl
        | some row => exact absurd rfl (hend row)
    | cons row rest =>
      refine Hoare.bind hrows ?_
      rintro ⟨result, cursor⟩ ⟨rfl, hrest⟩
      exact Hoare.pure ⟨rfl, rfl, row, rest, rfl, rfl, hrest⟩ .rfl

theorem close_spec (hclose : ∀ s : σ, ⦃I⦄ (Cursor.close s : m _) ⦃⇓ _ => I⦄) :
    ⦃I⦄ (c.close : m _) ⦃⇓ _ => I⦄ := by
  unfold close
  exact Hoare.keep (hclose c.cursor) fun _ => Triple.pure _ .rfl

end Lookahead

namespace MergedScan

/-- The keys of the rows that come first. -/
def heads (parts : List (List (Row τ))) : List Bytes :=
  parts.filterMap fun part => part.head?.map Row.key

/-- The lesser of the least key so far and another. -/
def lesser (least : Option Bytes) (key : Bytes) : Option Bytes :=
  some (match least with
    | none => key
    | some other => if key < other then key else other)

/-- **The smallest row ahead**: the least of the first keys. Cursors without a row are left out. -/
theorem smallest_spec {src : ScanSource m σ}
    (hclose : ∀ s : σ, ⦃I⦄ (Cursor.close s : m _) ⦃⇓ _ => I⦄)
    (hdropped : ∀ id stage e, ⦃I⦄ (src.dropped id stage e) ⦃⇓ _ => I⦄)
    {parts : List (List (Row τ))} {cs : List (Lookahead σ τ)}
    (h : List.Forall₂ (Lookahead.Holds m I) parts cs) (least : Option Bytes) :
    ⦃I⦄ (smallest src least cs)
    ⦃⇓ r => ⌜r.1 = (heads parts).foldl lesser least ∧
      List.Forall₂ (Lookahead.Ahead m I) (parts.filter (!·.isEmpty)) r.2⌝ ∧ I⦄ := by
  induction h generalizing least with
  | nil => exact Hoare.pure ⟨rfl, .nil⟩ .rfl
  | @cons part c parts cs hpart _ ih =>
    refine Hoare.bind (Lookahead.peek_spec hpart) ?_
    rintro ⟨result, c'⟩ hresult
    cases part with
    | cons row rest =>
      obtain ⟨rfl, hahead⟩ := hresult
      refine Hoare.bind (ih _) ?_
      rintro ⟨least', cs'⟩ ⟨rfl, hcs⟩
      exact Hoare.pure ⟨rfl, .cons hahead hcs⟩ .rfl
    | nil =>
      cases result with
      | error e =>
        refine Hoare.keep (hdropped _ _ _) fun _ => ?_
        exact Hoare.keep (Lookahead.close_spec hclose) fun _ => ih least
      | ok next =>
        cases next with
        | some key => exact absurd rfl (hresult key)
        | none => exact Hoare.keep (Lookahead.close_spec hclose) fun _ => ih least

/-- **Taking a row** joins its copies and leaves every other row. -/
theorem takeRow_spec (merge : τ → τ → τ) {key : Bytes} {parts : List (List (Row τ))}
    {cs : List (Lookahead σ τ)} (h : List.Forall₂ (Lookahead.Ahead m I) parts cs)
    (hsorted : ∀ part ∈ parts, part.Pairwise fun a b => a.key < b.key)
    (hleast : ∀ part ∈ parts, ∀ copy ∈ part, key ≤ copy.key) (acc : ExtTreeMap Bytes τ) :
    (∀ column, (takeRow merge key acc cs).1[column]? =
      (copiesOf parts.flatten key).foldl
        (fun found copy => Option.merge merge found (copy.get? column)) acc[column]?) ∧
    List.Forall₂ (Lookahead.Holds m I)
      (parts.map fun part => part.filter fun copy => copy.key ≠ key) (takeRow merge key acc cs).2 := by
  induction h generalizing acc with
  | nil => exact ⟨fun _ => rfl, .nil⟩
  | @cons part c parts cs hpart _ ih =>
    have hpart' := hpart
    obtain ⟨hdone, row, rest, rfl, hpeeked, hrest⟩ := hpart
    obtain ⟨hthis, hthat⟩ := copiesOf_cons (hsorted _ List.mem_cons_self)
      (hleast _ List.mem_cons_self row List.mem_cons_self)
    have ih := ih (fun part hmem => hsorted part (List.mem_cons_of_mem _ hmem))
      (fun part hmem => hleast part (List.mem_cons_of_mem _ hmem))
    have hflat : copiesOf ((row :: rest) :: parts).flatten key =
        copiesOf (row :: rest) key ++ copiesOf parts.flatten key := by
      unfold copiesOf
      rw [List.flatten_cons, List.filter_append]
    unfold takeRow Lookahead.take
    rw [hpeeked, hflat, List.map_cons]
    by_cases hkey : row.key = key
    · obtain ⟨hcolumns, hcs⟩ := ih (joinColumns merge acc row.columns)
      obtain ⟨hcopies, hleft⟩ := hthis hkey
      simp only [if_pos hkey, hcopies, hleft]
      refine ⟨fun column => ?_, .cons ⟨hdone, hrest⟩ hcs⟩
      rw [hcolumns, getElem?_joinColumns]
      rfl
    · obtain ⟨hcolumns, hcs⟩ := ih acc
      obtain ⟨hcopies, hleft⟩ := hthat hkey
      simp only [if_neg hkey, hcopies, hleft]
      exact ⟨fun column => hcolumns column, .cons hpart'.holds hcs⟩

theorem mem_heads {parts : List (List (Row τ))} {key : Bytes} :
    key ∈ heads parts ↔ ∃ row rest, row :: rest ∈ parts ∧ row.key = key := by
  unfold heads
  rw [List.mem_filterMap]
  constructor
  · rintro ⟨part, hpart, hkey⟩
    cases part with
    | nil => cases hkey
    | cons row rest => exact ⟨row, rest, hpart, Option.some.inj hkey⟩
  · rintro ⟨row, rest, hpart, rfl⟩
    exact ⟨row :: rest, hpart, rfl⟩

theorem heads_eq_nil {parts : List (List (Row τ))} (h : parts.flatten = []) : heads parts = [] := by
  rw [List.eq_nil_iff_forall_not_mem]
  intro key hkey
  obtain ⟨row, rest, hpart, -⟩ := mem_heads.1 hkey
  have hrow := List.mem_flatten_of_mem hpart (List.mem_cons_self (a := row) (l := rest))
  rw [h] at hrow
  cases hrow

/-- The fold over the first keys finds the key that is least among them. -/
theorem foldl_lesser {keys : List Bytes} {key : Bytes} (least : Option Bytes)
    (hmem : key ∈ keys ∨ least = some key) (hkeys : ∀ other ∈ keys, key ≤ other)
    (hleast : ∀ other, least = some other → key ≤ other) :
    keys.foldl lesser least = some key := by
  induction keys generalizing least with
  | nil => exact hmem.resolve_left List.not_mem_nil
  | cons k keys ih =>
    have hk := hkeys k List.mem_cons_self
    refine ih _ ?_ (fun other hother => hkeys other (List.mem_cons_of_mem _ hother)) ?_
    · cases least with
      | none =>
        rcases hmem with hmem | hmem
        · exact (List.mem_cons.1 hmem).symm.imp id (by rintro rfl; rfl)
        · cases hmem
      | some other =>
        have hother := hleast other rfl
        unfold lesser
        by_cases hlt : k < other
        · simp only [if_pos hlt]
          rcases hmem with hmem | hmem
          · exact (List.mem_cons.1 hmem).symm.imp id (by rintro rfl; rfl)
          · cases hmem
            exact absurd hlt (List.not_lt.2 hk)
        · simp only [if_neg hlt]
          rcases hmem with hmem | hmem
          · rcases List.mem_cons.1 hmem with rfl | hmem
            · exact Or.inr (congrArg some (List.le_antisymm (List.not_lt.1 hlt) hother))
            · exact Or.inl hmem
          · exact Or.inr hmem
    · cases least with
      | none =>
        rintro other hother
        cases hother
        exact hk
      | some old =>
        have hold := hleast old rfl
        rintro other hother
        cases hother
        change key ≤ if k < old then k else old
        split
        · exact hk
        · exact hold

/-- The first row of a merge has the least of the first keys. -/
theorem foldl_lesser_heads {merge : τ → τ → τ} {parts : List (List (Row τ))} {row : Row τ}
    {rows : List (Row τ)} (hsorted : ∀ part ∈ parts, part.Pairwise fun a b => a.key < b.key)
    (hjoins : Joins merge parts.flatten (row :: rows)) :
    (heads parts).foldl lesser none = some row.key := by
  have hle : ∀ other ∈ heads parts, row.key ≤ other := by
    intro other hother
    obtain ⟨copy, rest, hpart, rfl⟩ := mem_heads.1 hother
    exact hjoins.key_le (List.mem_flatten_of_mem hpart List.mem_cons_self)
  refine foldl_lesser none (Or.inl ?_) hle (by simp)
  -- a sequence with a copy of the row starts with it
  obtain ⟨copy, hcopy, hkey⟩ := List.mem_map.1 hjoins.key_mem
  obtain ⟨part, hpart, hmem⟩ := List.mem_flatten.1 hcopy
  cases part with
  | nil => cases hmem
  | cons first rest =>
    refine mem_heads.2 ⟨first, rest, hpart, ?_⟩
    have hfirst := hjoins.key_le (List.mem_flatten_of_mem hpart List.mem_cons_self)
    rcases List.mem_cons.1 hmem with rfl | hrest
    · exact hkey
    · have hlt := (List.pairwise_cons.1 (hsorted _ hpart)).1 copy hrest
      rw [hkey] at hlt
      exact absurd hlt (List.not_lt.2 hfirst)

end MergedScan

end Steps

namespace MergedScan

/-- The cursor of a replica's answer, if it has one. -/
def cursorsOf (answer : ReplicaId × Except Failure σ) : List (Lookahead σ τ) :=
  match answer.2 with
  | .ok cursor => [{ replica := answer.1, cursor }]
  | .error _ => []

/-- **Opening a sub-range** leaves out the replicas that do not open; they deliver nothing. -/
theorem openSubRange_spec {I J : Assertion ps} {src : ScanSource m σ} {sub : SubRange}
    {parts : List (List (Row τ))}
    (hdropped : ∀ id stage e, ⦃J⦄ (src.dropped id stage e) ⦃⇓ _ => J⦄)
    (hopen : ⦃I⦄ (src.openAll sub.range sub.replicas)
      ⦃⇓ opened => ⌜Opened m J opened parts⌝ ∧ J⦄) :
    ⦃I⦄ (openSubRange src sub : m (List (Lookahead σ τ)))
    ⦃⇓ cs => ⌜∃ open', open'.flatten = parts.flatten ∧ (∀ part ∈ open', part ∈ parts) ∧
      List.Forall₂ (Lookahead.Holds m J) open' cs⌝ ∧ J⦄ := by
  refine Hoare.bind hopen fun opened hopened => ?_
  refine Hoare.bind (Hoare.mapM (R := fun answer cs => cs = cursorsOf answer) ?_) fun css hcss => ?_
  · rintro ⟨replica, result⟩ -
    cases result with
    | ok cursor => exact Hoare.pure rfl .rfl
    | error e => exact Hoare.keep (hdropped _ _ _) fun _ => Hoare.pure rfl .rfl
  refine Hoare.pure ?_ .rfl
  -- answer by answer: a cursor with its rows, or neither
  clear hopen
  induction hopened generalizing css with
  | nil =>
    cases hcss
    exact ⟨[], rfl, by simp, .nil⟩
  | @cons answer rows opened parts hrows _ ih =>
    cases hcss with
    | @cons _ cs _ css hcs hcss =>
      obtain ⟨open', hflat, hsub, hholds⟩ := ih css hcss
      obtain ⟨replica, result⟩ := answer
      subst hcs
      cases result with
      | ok cursor =>
        refine ⟨rows :: open', by simp [hflat], ?_, .cons ⟨rfl, hrows⟩ hholds⟩
        intro part hpart
        rcases List.mem_cons.1 hpart with rfl | hpart
        · exact List.mem_cons_self
        · exact List.mem_cons_of_mem _ (hsub part hpart)
      | error e =>
        have hempty : rows = [] := hrows
        refine ⟨open', by simp [hflat, hempty], ?_, hholds⟩
        exact fun part hpart => List.mem_cons_of_mem _ (hsub part hpart)

end MergedScan

namespace MergedScan

/-- What the replicas of each sub-range deliver once its turn has come. While sub-ranges are
pending `I` holds of them. -/
def Opens (src : ScanSource m σ) (I : List SubRange → Assertion ps) :
    List SubRange → List (List (List (Row τ))) → Prop
  | [], [] => True
  | sub :: pending, parts :: sent =>
    ⦃I (sub :: pending)⦄ (src.openAll sub.range sub.replicas)
      ⦃⇓ opened => ⌜Opened m (I pending) opened parts⌝ ∧ I pending⦄ ∧
    Opens src I pending sent
  | _, _ => False

section Advance

variable {I : List SubRange → Assertion ps} {src : ScanSource m σ} {merge : τ → τ → τ}
  {κ : Type} [Cursor m κ (Row τ)] {J : κ → Assertion ps} {wrap : MergedScan σ τ → κ}

/-- Cursors whose items are the rows of a merged scan. -/
structure Shows (src : ScanSource m σ) (merge : τ → τ → τ) (I : List SubRange → Assertion ps)
    (J : κ → Assertion ps) (wrap : MergedScan σ τ → κ) : Prop where
  next : ∀ s, (Cursor.next (wrap s) : m _) = do
    let r ← s.next merge src
    return (.ok r.1, wrap r.2)
  around : ∀ s, J (wrap s) = I s.pending

/-- A scan goes on with the listed rows: the first is the next, and the others follow. -/
def GoesOn (m : Type → Type) [Monad m] [WPMonad m ps] [Cursor m κ (Row τ)] (J : κ → Assertion ps)
    (wrap : MergedScan σ τ → κ) : List (Row τ) → Option (Row τ) × MergedScan σ τ → Prop
  | [], r => r.1 = none
  | row :: rest, r => r.1 = some row ∧ Cursor.Yields m J rest (wrap r.2)

theorem yields_of_advance (hshows : Shows src merge I J wrap) {pending : List SubRange}
    {cs : List (Lookahead σ τ)} {rows : List (Row τ)}
    (h : ⦃I pending⦄ (advance merge src pending cs)
      ⦃⇓ r => ⌜GoesOn m J wrap rows r⌝ ∧ I r.2.pending⦄) :
    Cursor.Yields m J rows (wrap { pending, cursors := cs }) := by
  have hnext := hshows.next { pending, cursors := cs }
  have haround := hshows.around
  cases rows with
  | nil =>
    unfold Cursor.Yields Cursor.Gives
    rw [hnext, haround]
    refine Hoare.bind h ?_
    rintro ⟨row, scan⟩ rfl
    exact Hoare.pure rfl (by rw [haround])
  | cons row rest =>
    unfold Cursor.Yields Cursor.Gives
    rw [hnext, haround]
    refine Hoare.bind h ?_
    rintro ⟨row, scan⟩ ⟨rfl, hrest⟩
    exact Hoare.pure ⟨rfl, hrest⟩ (by rw [haround])

/-- **The rows of a sub-range** come one after the other; `later` is what follows once its cursors
have no row left. -/
theorem advance_rows (hshows : Shows src merge I J wrap) {pending : List SubRange}
    (hclose : ∀ s : σ, ⦃I pending⦄ (Cursor.close s : m _) ⦃⇓ _ => I pending⦄)
    (hdropped : ∀ id stage e, ⦃I pending⦄ (src.dropped id stage e) ⦃⇓ _ => I pending⦄)
    {later : List (Row τ)}
    (hlater : ∀ (parts : List (List (Row τ))) (cs : List (Lookahead σ τ)),
      List.Forall₂ (Lookahead.Holds m (I pending)) parts cs → parts.flatten = [] →
      ⦃I pending⦄ (advance merge src pending cs)
        ⦃⇓ r => ⌜GoesOn m J wrap later r⌝ ∧ I r.2.pending⦄)
    {rows : List (Row τ)} {parts : List (List (Row τ))} {cs : List (Lookahead σ τ)}
    (hcs : List.Forall₂ (Lookahead.Holds m (I pending)) parts cs)
    (hsorted : ∀ part ∈ parts, part.Pairwise fun a b => a.key < b.key)
    (hrows : Joins merge parts.flatten rows) :
    ⦃I pending⦄ (advance merge src pending cs)
    ⦃⇓ r => ⌜GoesOn m J wrap (rows ++ later) r⌝ ∧ I r.2.pending⦄ := by
  induction rows generalizing parts cs with
  | nil => exact hlater parts cs hcs hrows.eq_nil_of_nil
  | cons row rest ih =>
    unfold advance
    refine Hoare.bind (smallest_spec hclose hdropped hcs none) ?_
    rintro ⟨least, cs'⟩ ⟨hleast, hcs'⟩
    rw [foldl_lesser_heads hsorted hrows] at hleast
    cases hleast
    -- cursors that have no row left are gone, which changes nothing for the merge
    have hflat : (parts.filter (!·.isEmpty)).flatten = parts.flatten :=
      List.flatten_filter_not_isEmpty
    have hsorted' : ∀ part ∈ parts.filter (!·.isEmpty), part.Pairwise fun a b => a.key < b.key :=
      fun part hpart => hsorted part (List.mem_of_mem_filter hpart)
    have hleast : ∀ part ∈ parts.filter (!·.isEmpty), ∀ copy ∈ part, row.key ≤ copy.key := by
      intro part hpart copy hcopy
      exact hrows.key_le (List.mem_flatten_of_mem (List.mem_of_mem_filter hpart) hcopy)
    obtain ⟨hcolumns, hleft⟩ := takeRow_spec merge hcs' hsorted' hleast ∅
    have hrow : (⟨row.key, (takeRow merge row.key ∅ cs').1⟩ : Row τ) = row := by
      have hcols : (takeRow merge row.key ∅ cs').1 = row.columns := by
        ext1 column
        rw [hcolumns, hflat]
        exact (hrows.columns row List.mem_cons_self column).symm
      rw [hcols]
    refine Hoare.pure ⟨congrArg some hrow, ?_⟩ .rfl
    refine yields_of_advance hshows (ih hleft ?_ ?_)
    · intro part hpart
      obtain ⟨whole, hwhole, rfl⟩ := List.mem_map.1 hpart
      exact (hsorted' whole hwhole).filter _
    · have hrest : (List.map (fun part => part.filter fun copy => copy.key ≠ row.key)
          (parts.filter (!·.isEmpty))).flatten =
          parts.flatten.filter fun copy => copy.key ≠ row.key := by
        rw [← hflat, List.filter_flatten]
      rw [hrest]
      exact hrows.tail

/-- **The rows of a scan** are those of the current sub-range and then those of the later ones. -/
theorem advance_spec (hshows : Shows src merge I J wrap)
    (hclose : ∀ pending (s : σ), ⦃I pending⦄ (Cursor.close s : m _) ⦃⇓ _ => I pending⦄)
    (hdropped : ∀ pending id stage e,
      ⦃I pending⦄ (src.dropped id stage e) ⦃⇓ _ => I pending⦄)
    {pending : List SubRange} {sent : List (List (List (Row τ)))}
    (hopens : Opens src I pending sent)
    (hsent : ∀ parts ∈ sent, ∀ part ∈ parts, part.Pairwise fun a b => a.key < b.key)
    {later : List (List (Row τ))}
    (hlater : List.Forall₂ (fun parts rows => Joins merge parts.flatten rows) sent later)
    {parts : List (List (Row τ))} {cs : List (Lookahead σ τ)}
    (hcs : List.Forall₂ (Lookahead.Holds m (I pending)) parts cs)
    (hsorted : ∀ part ∈ parts, part.Pairwise fun a b => a.key < b.key)
    {rows : List (Row τ)} (hrows : Joins merge parts.flatten rows) :
    ⦃I pending⦄ (advance merge src pending cs)
    ⦃⇓ r => ⌜GoesOn m J wrap (rows ++ later.flatten) r⌝ ∧ I r.2.pending⦄ := by
  induction pending generalizing sent later parts cs rows with
  | nil =>
    cases sent with
    | cons => exact hopens.elim
    | nil =>
      cases hlater
      refine advance_rows hshows (hclose []) (hdropped []) (fun parts cs hcs hempty => ?_) hcs hsorted hrows
      unfold advance
      refine Hoare.bind (smallest_spec (hclose []) (hdropped []) hcs none) ?_
      rintro ⟨least, cs'⟩ ⟨hleast, -⟩
      rw [heads_eq_nil hempty] at hleast
      cases hleast
      exact Hoare.pure rfl .rfl
  | cons sub pending ih =>
    cases sent with
    | nil => exact hopens.elim
    | cons first sent =>
      obtain ⟨hopen, hopens⟩ := hopens
      cases hlater with
      | @cons _ firstRows _ later hfirst hlater =>
        refine advance_rows hshows (hclose _) (hdropped _) (fun parts cs hcs hempty => ?_) hcs hsorted hrows
        unfold advance
        refine Hoare.bind (smallest_spec (hclose _) (hdropped _) hcs none) ?_
        rintro ⟨least, cs'⟩ ⟨hleast, -⟩
        rw [heads_eq_nil hempty] at hleast
        cases hleast
        refine Hoare.bind (openSubRange_spec (hdropped _) hopen) ?_
        rintro opened ⟨open', hflat, hsub, hholds⟩
        refine ih hopens (fun parts hparts => hsent parts (List.mem_cons_of_mem _ hparts)) hlater
          hholds (fun part hpart => hsent first List.mem_cons_self part (hsub part hpart)) ?_
        rw [hflat]
        exact hfirst

theorem close_spec {J : Assertion ps} (hclose : ∀ s : σ, ⦃J⦄ (Cursor.close s : m _) ⦃⇓ _ => J⦄)
    (s : MergedScan σ τ) : ⦃J⦄ (s.close : m _) ⦃⇓ _ => J⦄ := by
  have hcursors : ∀ cs : List (Lookahead σ τ),
      ⦃J⦄ (cs.forM fun c => do let _ ← c.close : m PUnit) ⦃⇓ _ => J⦄ := by
    intro cs
    induction cs with
    | nil => exact Triple.pure _ .rfl
    | cons c cs ih =>
      refine Hoare.keep ?_ fun _ => ih
      exact Hoare.keep (Lookahead.close_spec hclose) fun _ => Triple.pure _ .rfl
  exact Hoare.keep (hcursors s.cursors) fun _ => Triple.pure _ .rfl

/-- **A scan yields the merges of its sub-ranges** one after the other. -/
theorem yields_joins (hshows : Shows src merge I J wrap)
    (hclose : ∀ pending (s : σ), ⦃I pending⦄ (Cursor.close s : m _) ⦃⇓ _ => I pending⦄)
    (hdropped : ∀ pending id stage e,
      ⦃I pending⦄ (src.dropped id stage e) ⦃⇓ _ => I pending⦄)
    {plan : List SubRange} {sent : List (List (List (Row τ)))} (hopens : Opens src I plan sent)
    (hsent : ∀ parts ∈ sent, ∀ part ∈ parts, part.Pairwise fun a b => a.key < b.key)
    {merged : List (List (Row τ))}
    (hmerged : List.Forall₂ (fun parts rows => Joins merge parts.flatten rows) sent merged) :
    Cursor.Yields m J merged.flatten (wrap { pending := plan }) := by
  have hnone : Joins merge ([] : List (List (Row τ))).flatten [] := ⟨.nil, by simp, by simp⟩
  exact yields_of_advance hshows
    (advance_spec hshows hclose hdropped hopens hsent hmerged .nil (by simp) hnone)

end Advance

end MergedScan

/-- A merged scan with its surroundings, as a cursor over its rows. -/
structure OpenScan (m : Type → Type) (σ τ : Type) where
  /-- How two payloads of a column are joined. -/
  merge : τ → τ → τ
  /-- How cursors are opened. -/
  src : ScanSource m σ
  /-- The scan. -/
  scan : MergedScan σ τ

instance : Cursor m (OpenScan m σ τ) (Row τ) where
  next s := do
    let (row, scan) ← s.scan.next s.merge s.src
    return (.ok row, { s with scan })
  close s := do
    return { s with scan := ← s.scan.close }

namespace OpenScan

variable {I : List SubRange → Assertion ps} {src : ScanSource m σ} {plan : List SubRange}
  {sent : List (List (List (Row τ)))}

/-- The assertion about the surroundings of a scan. -/
def around (I : List SubRange → Assertion ps) (s : OpenScan m σ τ) : Assertion ps :=
  I s.scan.pending

/-- **A drained scan is the exact merge, sub-range after sub-range**, whatever the replicas deliver
before they end or fail. -/
theorem drain_isMerge {projection : Projection τ}
    (hclose : ∀ pending (s : σ), ⦃I pending⦄ (Cursor.close s : m _) ⦃⇓ _ => I pending⦄)
    (hdropped : ∀ pending id stage e,
      ⦃I pending⦄ (src.dropped id stage e) ⦃⇓ _ => I pending⦄)
    (hopens : MergedScan.Opens src I plan sent)
    (hsent : ∀ parts ∈ sent, ∀ part ∈ parts, part.Pairwise fun a b => a.key < b.key) :
    ∃ merged : List (List (Row τ)),
      List.Forall₂ (fun parts rows => IsMerge projection parts.flatten rows) sent merged ∧
      ∀ limit, merged.flatten.length < limit →
        ⦃I plan⦄
        (Cursor.collect limit (⟨projection.merge, src, { pending := plan }⟩ : OpenScan m σ τ) : m _)
        ⦃⇓ r => ⌜r.1 = .ok merged.flatten⌝⦄ := by
  obtain ⟨merged, hmerged⟩ := Joins.exists_each projection.merge sent
  refine ⟨merged, hmerged.imp fun parts rows h => h.isMerge, fun limit hlimit => ?_⟩
  have hshows : MergedScan.Shows src projection.merge I (around I)
      (fun scan => (⟨projection.merge, src, scan⟩ : OpenScan m σ τ)) := ⟨fun _ => rfl, fun _ => rfl⟩
  have hyields := MergedScan.yields_joins hshows hclose hdropped hopens hsent hmerged
  have hclosed : ∀ s : OpenScan m σ τ,
      ⦃around I s⦄ (Cursor.close s : m _) ⦃⇓ _ => ⌜True⌝⦄ := by
    intro s
    refine Hoare.keep (MergedScan.close_spec (hclose s.scan.pending) s.scan) fun _ => ?_
    exact Triple.pure _ (SPred.pure_intro trivial)
  exact Hoare.result (Cursor.collect_spec hyields hclosed hlimit)

/-- A row of one column, written at time `ts`. -/
def singleCell (key : Bytes) (ts : Timestamp) : Row Value :=
  ⟨key, (∅ : ExtTreeMap Bytes Value).insert [] ⟨key, ts⟩⟩

/-- Three replicas of two sub-ranges: `a` has every row, `b` has a newer first row and breaks down
after it, `c` does not open. -/
def faultyTrio : ScanSource Id (Feed (Row Value)) where
  openAll range _ :=
    if range.start = [] then
      [("a", .ok { items := [singleCell [1] 1, singleCell [2] 1] }),
        ("b", .ok
          { items := [singleCell [1] 2, singleCell [2] 2]
            breaksAfter := some (1, .replicaCall "cursor") }),
        ("c", .error .timeout)]
    else [("a", .ok { items := [singleCell [3] 1] })]
  dropped _ _ _ := pure ()

theorem drain_isMerge_faultyTrio :
    ∃ merged : List (List (Row Value)),
      List.Forall₂ (fun parts rows => IsMerge Projection.latest parts.flatten rows)
        [[[singleCell [1] 1, singleCell [2] 1], [singleCell [1] 2], []], [[singleCell [3] 1]]]
        merged ∧
      ∀ limit, merged.flatten.length < limit →
        ⦃⌜True⌝⦄
        (Cursor.collect limit (⟨Projection.latest.merge, faultyTrio,
          { pending :=
              [{ range := { stop := [3] }, replicas := ["a", "b", "c"] },
                { range := { start := [3] }, replicas := ["a"] }] }⟩ :
            OpenScan Id (Feed (Row Value)) Value) : Id _)
        ⦃⇓ r => ⌜r.1 = .ok merged.flatten⌝⦄ := by
  refine drain_isMerge (I := fun _ => ⌜True⌝) ?_ ?_ ?_ ?_
  · exact fun _ _ => Triple.pure _ .rfl
  · exact fun _ _ _ _ => Triple.pure _ .rfl
  · refine ⟨Hoare.pure ?_ .rfl, Hoare.pure ?_ .rfl, trivial⟩
    · have hbroken := Feed.delivers (m := Id) (I := spred(⌜True⌝))
        [singleCell [1] 2, singleCell [2] 2] 1 (.replicaCall "cursor")
      exact .cons (Feed.yields _).delivers (.cons hbroken (.cons rfl .nil))
    · exact .cons (Feed.yields _).delivers .nil
  · simp only [List.forall_mem_cons, List.not_mem_nil, false_implies, implies_true, and_true,
      List.pairwise_cons, List.Pairwise.nil, singleCell]
    decide

end OpenScan

end QuorumStore
