/-!
# The text of a count

Counts are exposed as double-precision numbers: the double nearest to the count, written with the
fewest digits that read back as that double, and zeros up to the units.

* `Count.nearest`: the nearest double, with a half going to the even neighbour.
* `Count.shortest`: the shortest decimal that reads back.
-/

namespace QuorumStore.Count

/-- A double that is a whole number: a significand of at most 53 bits and a power of two. -/
structure Whole where
  /-- The significand. -/
  significand : Nat
  /-- The exponent of two. -/
  exponent : Nat

/-- Its value. -/
def Whole.value (w : Whole) : Nat := w.significand <<< w.exponent

/-- The double nearest to a whole number; a half goes to the even neighbour. -/
def nearest (n : Nat) : Whole :=
  let exponent := n.log2 + 1 - 53
  let unit := 1 <<< exponent
  let down := n / unit
  let rest := n % unit
  let up := decide (unit < 2 * rest) || (2 * rest == unit && down % 2 == 1)
  ⟨if up then down + 1 else down, exponent⟩

/-- Whether a decimal reads back as the double: it lies between the midpoints to the neighbours,
which belong to the even ones. Distances are compared in quarters of a unit. -/
def readsBack (w : Whole) (n : Nat) : Bool :=
  let unit := 1 <<< w.exponent
  let below := if w.significand = 1 <<< 52 then unit else 2 * unit
  let above := 2 * unit
  let even := w.significand % 2 == 0
  let v := w.value
  if n ≤ v then
    let d := 4 * (v - n)
    decide (d < below) || (even && d == below)
  else
    let d := 4 * (n - v)
    decide (d < above) || (even && d == above)

/-- The nearer multiple of `grid`, among the two around the value, that reads back. -/
def onGrid (w : Whole) (grid : Nat) : Option Nat :=
  let v := w.value
  let low := v / grid * grid
  let high := low + grid
  match readsBack w low, readsBack w high with
  | true, true => some (if v - low ≤ high - v then low else high)
  | true, false => some low
  | false, true => some high
  | false, false => none

/-- The decimal with the fewest digits that reads back, looking at coarser grids first. -/
def shortest (w : Whole) : Nat → Nat
  | 0 => w.value
  | places + 1 => (onGrid w (10 ^ (places + 1))).getD (shortest w places)

/-- The text of a count. -/
def text (n : Nat) : String :=
  if n < 1 <<< 53 then toString n else toString (shortest (nearest n) 20)

end QuorumStore.Count
