import QuorumStore.Json.Value

/-!
# JSON forms of data

* `JsonForm`: how a type is written as a JSON value and read back.
* `JsonForm.write`, `JsonForm.read?`: the same for compact JSON texts.
* `JsonValue.record?`: the fields of a record, which may be written by name or in order.
-/

namespace QuorumStore

/-- How a type is written as a JSON value and read back. -/
class JsonForm (α : Type) where
  /-- The JSON value of a datum. -/
  toJson : α → JsonValue
  /-- The datum that a JSON value stands for. -/
  ofJson? : JsonValue → Option α

namespace JsonForm

variable {α : Type} [JsonForm α]

/-- A datum as compact JSON text. -/
def write (a : α) : String := (toJson a).render

/-- The datum that a JSON text stands for. -/
def read? (text : String) : Option α := JsonValue.parse? text >>= ofJson?

/-- Numbers from zero to below a bound. -/
def natBelow? (bound : Nat) : JsonValue → Option Nat
  | .integer (.ofNat n) => if n < bound then some n else none
  | _ => none

/-- Integers in a half-open interval. -/
def intWithin? (low high : Int) : JsonValue → Option Int
  | .integer n => if low ≤ n ∧ n < high then some n else none
  | _ => none

instance : JsonForm UInt8 where
  toJson n := .integer n.toNat
  ofJson? v := (natBelow? UInt8.size v).map UInt8.ofNat

instance : JsonForm UInt64 where
  toJson n := .integer n.toNat
  ofJson? v := (natBelow? UInt64.size v).map UInt64.ofNat

instance : JsonForm Int64 where
  toJson n := .integer n.toInt
  ofJson? v := (intWithin? Int64.minValue.toInt (Int64.maxValue.toInt + 1) v).map Int64.ofInt

instance : JsonForm (List α) where
  toJson as := .array (as.map toJson)
  ofJson?
    | .array items => items.mapM ofJson?
    | _ => none

instance : JsonForm (Option α) where
  toJson
    | none => .null
    | some a => toJson a
  ofJson?
    | .null => some none
    | v => (ofJson? v).map some

end JsonForm

namespace JsonValue

/-- A string with a text. -/
def text (s : String) : JsonValue := .string (some s)

/-- An object with the given members. -/
def ofFields (fields : List (String × JsonValue)) : JsonValue :=
  .object (fields.map fun (name, v) => (some name, v))

/-- Adds the known members of an object to those found, none of which may be repeated. -/
def addMember (names : List String) (found : List (String × JsonValue)) :
    Option String × JsonValue → Option (List (String × JsonValue))
  | (none, _) => none
  | (some name, v) =>
    if name ∉ names then some found
    else if (found.lookup name).isSome then none
    else some (found ++ [(name, v)])

/-- The fields of a record with the given names. It is written as an object, whose other members
are passed over, or as an array of its fields in order, of which the first `needed` may not be
missing. -/
def record? (names : List String) (needed : Nat) : JsonValue → Option (List (String × JsonValue))
  | .object members => members.foldlM (addMember names) []
  | .array items =>
    if needed ≤ items.length ∧ items.length ≤ names.length then some (names.zip items) else none
  | _ => none

variable {α : Type} [JsonForm α]

/-- A field that has to be there. -/
def field? (fields : List (String × JsonValue)) (name : String) : Option α :=
  (fields.lookup name).bind JsonForm.ofJson?

/-- A field that has a default. -/
def fieldOr? (fields : List (String × JsonValue)) (name : String) (default : α) : Option α :=
  match fields.lookup name with
  | none => some default
  | some v => JsonForm.ofJson? v

end JsonValue

end QuorumStore
