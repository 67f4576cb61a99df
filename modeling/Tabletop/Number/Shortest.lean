import Tabletop.Number.Binary64

/-! The shortest decimal that a double reads back from. A decimal reads back as `m · 2^q` when it lies
between the midpoints to the neighbouring doubles, the midpoints themselves included when `m` is even. -/
namespace Tabletop

/-- `coefficient · 10^exponent`. -/
structure Decimal where
  coefficient : Nat
  exponent : Int
  deriving DecidableEq, Repr

/-- Which of two equally near neighbours is taken. -/
inductive Tie where
  | up
  | even
  deriving DecidableEq, Repr

namespace Shortest

/-- The value `value / unit` and the ends of the interval that reads back as it, over one
denominator. -/
structure Interval where
  value : Nat
  low : Nat
  high : Nat
  unit : Nat
  closed : Bool

/-- The interval of `m · 2^q`. Below a power of two the doubles lie twice as dense. -/
def interval (m : Nat) (q : Int) : Interval :=
  let below := if m = Binary64.hiddenBit ∧ -1074 < q then 1 else 2
  let up := 1 <<< (q - 2).toNat
  { value := 4 * m * up, low := (4 * m - below) * up, high := (4 * m + 2) * up,
    unit := 1 <<< (2 - q).toNat, closed := m % 2 == 0 }

namespace Interval

/-- The same quantities counted in steps of `10^g`. -/
def inSteps (i : Interval) (g : Int) : Interval :=
  let up := Nat.pow 10 (-g).toNat
  { value := i.value * up, low := i.low * up, high := i.high * up,
    unit := i.unit * Nat.pow 10 g.toNat, closed := i.closed }

/-- Whether the whole number `c` reads back. -/
def contains (i : Interval) (c : Nat) : Bool :=
  if i.closed then i.low ≤ c * i.unit && c * i.unit ≤ i.high
  else i.low < c * i.unit && c * i.unit < i.high

/-- The whole number nearest to the value that reads back. Only the two neighbours of the value need
trying: if a whole number lies in the interval, so does one of them. -/
def nearest? (tie : Tie) (i : Interval) : Option Nat :=
  let below := i.value / i.unit
  match i.contains below, i.contains (below + 1) with
  | false, false => none
  | true, false => some below
  | false, true => some (below + 1)
  | true, true =>
    let rest := i.value % i.unit
    if 2 * rest < i.unit then some below
    else if 2 * rest = i.unit ∧ tie = .even ∧ below % 2 = 0 then some below
    else some (below + 1)

end Interval

/-- How many zeros stand between the point and the first digit of a fraction. -/
def leadingZeros (i : Interval) : Nat :=
  ((List.range 400).find? fun j => i.unit ≤ i.value * Nat.pow 10 (j + 1)).getD 0

/-- The least `k` with `value < 10^k`, counted down from a whole part or up from a fraction. -/
def magnitude (i : Interval) : Int :=
  let whole := i.value / i.unit
  if whole ≠ 0 then (Nat.toDigits 10 whole).length
  else -(leadingZeros i : Int)

/-- Drops the zeros at the end of a coefficient into the exponent, `steps` at most. -/
def stripZeros : Nat → Decimal → Decimal
  | 0, d => d
  | steps + 1, d =>
    if d.coefficient ≠ 0 ∧ d.coefficient % 10 = 0 then
      stripZeros steps ⟨d.coefficient / 10, d.exponent + 1⟩
    else d

end Shortest

/-- The decimal with the fewest digits that reads back as `m · 2^q`, and of those the nearest.
Seventeen digits always suffice. -/
def Decimal.shortest (tie : Tie) (m : Nat) (q : Int) : Decimal :=
  let i := Shortest.interval m q
  let k := Shortest.magnitude i
  let found := (List.range 17).findSome? fun n =>
    let g := k - (n + 1 : Nat)
    ((i.inSteps g).nearest? tie).map fun c => (⟨c, g⟩ : Decimal)
  Shortest.stripZeros 20 (found.getD ⟨0, 0⟩)

end Tabletop
