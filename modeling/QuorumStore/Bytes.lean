/-!
# Byte strings

Row keys, column names, contents and tokens are byte strings in lexicographic order.

* `Hexadecimal.digit`, `Hexadecimal.value?`: hexadecimal digits and the numbers they stand for.
* `Bytes.successor`: the key that follows a key immediately.
* `Bytes.toHex`, `Bytes.ofHex?`: the hexadecimal text of a byte string.
* `Bytes.compare_eq_lt_iff`: the three-way comparison and the order agree.
* `roomFor`: how many entries of a size a list can have room for.
-/

namespace QuorumStore

namespace Hexadecimal

/-- The lower-case digit of a number below sixteen. -/
def digit (n : Nat) : Char := Nat.digitChar n

/-- The number that a digit of either case stands for. -/
def value? (c : Char) : Option Nat :=
  if '0' ≤ c ∧ c ≤ '9' then some (c.toNat - '0'.toNat)
  else if 'a' ≤ c ∧ c ≤ 'f' then some (c.toNat - 'a'.toNat + 10)
  else if 'A' ≤ c ∧ c ≤ 'F' then some (c.toNat - 'A'.toNat + 10)
  else none

/-- The number that digits stand for, the most significant first. -/
def number? (digits : List Char) : Option Nat :=
  digits.foldlM (fun n c => (value? c).map (16 * n + ·)) 0

end Hexadecimal

/-- A byte string. Shorter strings come before their extensions. -/
abbrev Bytes := List UInt8

namespace Bytes

/-- The smallest key strictly greater than `key`: the key extended by a zero byte. -/
def successor (key : Bytes) : Bytes := key ++ [0]

/-- The hexadecimal text of a byte string, two digits a byte. -/
def toHex (b : Bytes) : String :=
  String.ofList (b.flatMap fun byte =>
    [Hexadecimal.digit (byte.toNat / 16), Hexadecimal.digit (byte.toNat % 16)])

/-- Reads pairs of hexadecimal digits. -/
def ofHexDigits? : List Char → Option Bytes
  | [] => some []
  | [_] => none
  | hi :: lo :: rest => do
    let h ← Hexadecimal.value? hi
    let l ← Hexadecimal.value? lo
    let bytes ← ofHexDigits? rest
    return UInt8.ofNat (16 * h + l) :: bytes

/-- The byte string a hexadecimal text stands for, if it is one. -/
def ofHex? (text : String) : Option Bytes := ofHexDigits? text.toList

theorem compare_cons (a b : UInt8) (s t : Bytes) :
    compare (a :: s) (b :: t) = (compare a b).then (compare s t) := by
  simp only [List.compare_eq_compareLex, List.compareLex]
  cases compare a b <;> rfl

/-- The three-way comparison of byte strings is their lexicographic order. -/
theorem compare_eq_lt_iff (s t : Bytes) : compare s t = .lt ↔ s < t := by
  induction s generalizing t with
  | nil => cases t <;> simp [compare, List.compareLex]
  | cons a s ih =>
    cases t with
    | nil => simp [compare, List.compareLex]
    | cons b t =>
      rw [compare_cons, List.cons_lt_cons_iff, ← ih, Ordering.then_eq_lt, Std.compare_eq_lt,
        Std.LawfulEqOrd.compare_eq_iff_eq]

end Bytes

/-- The most bytes that can be reserved in one piece. -/
def maxReservation : Nat := 9223372036854775807

/-- The most entries of a size that a list can have room for. To reserve more is a fault that stops
the process; how much memory is free is not modelled. -/
def roomFor (entrySize : Nat) : Nat := maxReservation / entrySize

end QuorumStore
