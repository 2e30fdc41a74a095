import QuorumStore.Json.DataModel
import QuorumStore.Proofs.Json.Values
import QuorumStore.Proofs.OrderedMap

/-!
# Data are read back

Every datum is read back from its compact text. A text may be written in other ways, with blanks,
fields in another order or left out, or records as arrays; reading it and writing the datum gives
the one text that is written.

* `LawfulJsonForm`: forms that are read back, with instances for the data model.
* `JsonValue.record?_ofFields`: the fields of a record are found by their names.
* `JsonForm.read?_write`: **data are read back from their texts.**
* `JsonForm.dataModel_roundTrips`: the data model, and texts that were not written so.
-/

namespace QuorumStore

open Std JsonValue

/-- A form that is read back. -/
class LawfulJsonForm (α : Type) [JsonForm α] : Prop where
  integral : ∀ a : α, (JsonForm.toJson a).IsIntegral
  ofJson?_toJson : ∀ a : α, JsonForm.ofJson? (JsonForm.toJson a) = some a

namespace JsonForm

open LawfulJsonForm

variable {α : Type} [JsonForm α]

/-- **Data are read back from their texts.** -/
theorem read?_write [LawfulJsonForm α] (a : α) : read? (write a) = some a := by
  unfold read? write
  rw [(integral a).parse?_render, Option.bind_eq_bind, Option.bind_some, ofJson?_toJson]

instance : LawfulJsonForm UInt8 where
  integral n := .integer _
  ofJson?_toJson n := by
    show (if n.toNat < UInt8.size then some n.toNat else none).map UInt8.ofNat = some n
    rw [if_pos n.toNat_lt, Option.map_some, UInt8.ofNat_toNat]

instance : LawfulJsonForm UInt64 where
  integral n := .integer _
  ofJson?_toJson n := by
    show (if n.toNat < UInt64.size then some n.toNat else none).map UInt64.ofNat = some n
    rw [if_pos n.toNat_lt, Option.map_some, UInt64.ofNat_toNat]

instance : LawfulJsonForm Int64 where
  integral n := .integer _
  ofJson?_toJson n := by
    have hrange : Int64.minValue.toInt ≤ n.toInt ∧ n.toInt < Int64.maxValue.toInt + 1 :=
      ⟨n.minValue_le_toInt, Int.lt_add_one_of_le n.toInt_le⟩
    show (if _ then some n.toInt else none).map Int64.ofInt = some n
    rw [if_pos hrange, Option.map_some, Int64.ofInt_toInt]

instance [LawfulJsonForm α] : LawfulJsonForm (List α) where
  integral as := by
    refine .array fun v hv => ?_
    obtain ⟨a, -, rfl⟩ := List.mem_map.1 hv
    exact integral a
  ofJson?_toJson as := by
    show (as.map toJson).mapM ofJson? = some as
    induction as with
    | nil => rfl
    | cons a as ih =>
      rw [List.map_cons, List.mapM_cons, ofJson?_toJson, ih]
      rfl

instance : LawfulJsonForm (Option UInt64) where
  integral
    | none => .null
    | some n => .integer _
  ofJson?_toJson
    | none => rfl
    | some n => by
      show (ofJson? (toJson n)).map some = some (some n)
      rw [ofJson?_toJson, Option.map_some]

end JsonForm

namespace JsonValue

section Records

variable {fields : List (String × JsonValue)} {names : List String}

theorem integral_ofFields (h : ∀ field ∈ fields, field.2.IsIntegral) :
    (ofFields fields).IsIntegral := by
  refine .object fun member hmember => ?_
  obtain ⟨field, hfield, rfl⟩ := List.mem_map.1 hmember
  exact h field hfield

/-- Fields with new names are added one after the other. -/
theorem foldlM_addMember (hknown : ∀ field ∈ fields, field.1 ∈ names)
    (found : List (String × JsonValue)) (hnew : ((found ++ fields).map Prod.fst).Nodup) :
    (fields.map fun (name, v) => (some name, v)).foldlM (addMember names) found =
      some (found ++ fields) := by
  induction fields generalizing found with
  | nil => simp
  | cons field fields ih =>
    obtain ⟨name, v⟩ := field
    have hsplit : found ++ (name, v) :: fields = found ++ [(name, v)] ++ fields := by simp
    have hfresh : found.lookup name = none := by
      rw [List.lookup_eq_none_iff]
      intro old hold
      rw [List.map_append, List.nodup_append] at hnew
      have hne := hnew.2.2 old.1 (List.mem_map_of_mem hold) name (by simp)
      simpa using Ne.symm hne
    have hadd : addMember names found (some name, v) = some (found ++ [(name, v)]) := by
      simp [addMember, hknown (name, v) List.mem_cons_self, hfresh]
    rw [List.map_cons, List.foldlM_cons, hadd, Option.bind_eq_bind, Option.bind_some, hsplit]
    rw [hsplit] at hnew
    exact ih (fun other hother => hknown other (List.mem_cons_of_mem _ hother)) _ hnew

/-- **The fields of a record** are those it was written with. -/
theorem record?_ofFields (hnames : fields.map Prod.fst = names) (hdistinct : names.Nodup)
    (needed : Nat) : (ofFields fields).record? names needed = some fields := by
  refine foldlM_addMember (fun field hfield => ?_) [] ?_
  · rw [← hnames]
    exact List.mem_map_of_mem hfield
  · rw [List.nil_append, hnames]
    exact hdistinct

variable {α : Type} [JsonForm α] {name other : String} {v : JsonValue} {default : α}

/-- A field is read back, and not mistaken for another one. -/
theorem field?_self [LawfulJsonForm α] (a : α) :
    field? ((name, JsonForm.toJson a) :: fields) name = some a := by
  unfold field?
  rw [List.lookup_cons_self, Option.bind_some, LawfulJsonForm.ofJson?_toJson]

theorem field?_other (h : name ≠ other) :
    (field? ((other, v) :: fields) name : Option α) = field? fields name := by
  unfold field?
  rw [List.lookup_cons, beq_false_of_ne h]

theorem fieldOr?_self [LawfulJsonForm α] (a : α) :
    fieldOr? ((name, JsonForm.toJson a) :: fields) name default = some a := by
  unfold fieldOr?
  rw [List.lookup_cons_self]
  exact LawfulJsonForm.ofJson?_toJson a

theorem fieldOr?_other (h : name ≠ other) :
    fieldOr? ((other, v) :: fields) name default = fieldOr? fields name default := by
  unfold fieldOr?
  rw [List.lookup_cons, beq_false_of_ne h]

end Records

end JsonValue

section DataModel

open JsonForm LawfulJsonForm

instance : LawfulJsonForm Cell where
  integral c := by
    refine integral_ofFields ?_
    simp only [List.forall_mem_cons, integral, true_and]
    exact List.forall_mem_nil _
  ofJson?_toJson c := by
    unfold toJson ofJson? instJsonFormCell
    dsimp only
    rw [record?_ofFields (by rfl) (by decide)]
    simp (disch := decide) only [Option.bind_eq_bind, Option.bind_some, field?_self, field?_other]
    rfl

instance : LawfulJsonForm Value where
  integral v := by
    refine integral_ofFields ?_
    simp only [List.forall_mem_cons, integral, true_and]
    exact List.forall_mem_nil _
  ofJson?_toJson v := by
    unfold toJson ofJson? instJsonFormValue
    dsimp only
    rw [record?_ofFields (by rfl) (by decide)]
    simp (disch := decide) only [Option.bind_eq_bind, Option.bind_some, field?_self, field?_other]
    rfl

instance : LawfulJsonForm ColumnFilter where
  integral
    | .all => .string _
    | .only columns => by
      refine integral_ofFields ?_
      simp only [List.forall_mem_cons, integral, true_and]
      exact List.forall_mem_nil _
  ofJson?_toJson
    | .all => rfl
    | .only columns => by
      show (ofJson? (toJson columns.toList)).map ColumnFilter.ofList = some (.only columns)
      rw [ofJson?_toJson, Option.map_some]
      unfold ColumnFilter.ofList
      rw [setOfList_toList]

instance : LawfulJsonForm RowRange where
  integral r := by
    refine integral_ofFields ?_
    simp only [List.forall_mem_cons, integral, true_and]
    exact List.forall_mem_nil _
  ofJson?_toJson r := by
    unfold toJson ofJson? instJsonFormRowRange
    dsimp only
    rw [record?_ofFields (by rfl) (by decide)]
    simp (disch := decide) only [Option.bind_eq_bind, Option.bind_some, field?_self, field?_other,
      fieldOr?_self, fieldOr?_other]
    rfl

instance : LawfulJsonForm QuorumConfig where
  integral c := by
    refine integral_ofFields ?_
    simp only [List.forall_mem_cons, integral, true_and]
    exact List.forall_mem_nil _
  ofJson?_toJson c := by
    unfold toJson ofJson? instJsonFormQuorumConfig
    dsimp only
    rw [record?_ofFields (by rfl) (by decide)]
    simp (disch := decide) only [Option.bind_eq_bind, Option.bind_some, fieldOr?_self,
      fieldOr?_other]
    rfl

instance : LawfulJsonForm ScanConfig where
  integral c := by
    refine integral_ofFields ?_
    simp only [List.forall_mem_cons, integral, true_and]
    exact List.forall_mem_nil _
  ofJson?_toJson c := by
    unfold toJson ofJson? instJsonFormScanConfig
    dsimp only
    rw [record?_ofFields (by rfl) (by decide)]
    simp (disch := decide) only [Option.bind_eq_bind, Option.bind_some, fieldOr?_self,
      fieldOr?_other]
    rfl

instance : LawfulJsonForm CoordinatorConfig where
  integral c := by
    refine integral_ofFields ?_
    simp only [List.forall_mem_cons, integral, true_and]
    exact List.forall_mem_nil _
  ofJson?_toJson c := by
    unfold toJson ofJson? instJsonFormCoordinatorConfig
    dsimp only
    rw [record?_ofFields (by rfl) (by decide)]
    simp (disch := decide) only [Option.bind_eq_bind, Option.bind_some, fieldOr?_self,
      fieldOr?_other]
    rfl

end DataModel

namespace JsonForm

/-- Data are read back from their texts, and whatever text stands for a datum, the text that is
written of that datum stands for it too. -/
def RoundTrips (α : Type) [JsonForm α] : Prop :=
  (∀ a : α, read? (write a) = some a) ∧
    ∀ text, (read? text : Option α).bind (fun a => read? (write a)) = (read? text : Option α)

theorem roundTrips (α : Type) [JsonForm α] [LawfulJsonForm α] : RoundTrips α := by
  refine ⟨read?_write, fun text => ?_⟩
  cases hread : (read? text : Option α) with
  | none => rfl
  | some a => exact read?_write a

example : write (Cell.mk [1] [255]) = "\x7b\"row\":[1],\"column\":[255]\x7d" := by decide

/-- Blanks, another order and unknown fields make no difference. -/
example : read? "\x7b\"column\": [255], \"age\": 3e1, \"row\": [1]\x7d" =
    some (Cell.mk [1] [255]) := by
  decide

/-- **The data model round-trips**: cells, values, column filters, ranges and configurations are read
back from their compact texts, and a text that was written in another way is brought into the compact
form by reading and writing. -/
theorem dataModel_roundTrips :
    RoundTrips Cell ∧ RoundTrips Value ∧ RoundTrips ColumnFilter ∧ RoundTrips RowRange ∧
      RoundTrips CoordinatorConfig :=
  ⟨roundTrips Cell, roundTrips Value, roundTrips ColumnFilter, roundTrips RowRange,
    roundTrips CoordinatorConfig⟩

end JsonForm

end QuorumStore
