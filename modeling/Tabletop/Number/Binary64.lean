/-! Doubles read exactly: a double is no number, an infinity, or a signed `significand · 2^exponent`.
Whole parts are taken from that reading in integer arithmetic. -/
namespace Tabletop

/-- The value of a double, without loss. Zero keeps its sign. -/
inductive Binary64 where
  | nan
  | infinite (negative : Bool)
  | finite (negative : Bool) (significand : Nat) (exponent : Int)
  deriving DecidableEq, Repr

namespace Binary64

/-- The bit that the 52 bits of a fraction leave out, as a number. -/
def hiddenBit : Nat := 1 <<< 52

/-- Splits the 64 bits into sign, exponent and fraction. Subnormals have no hidden bit. -/
def ofFloat (x : Float) : Binary64 :=
  let bits : Nat := x.toBits.toNat
  let negative := decide (bits >>> 63 = 1)
  let biased : Nat := (bits >>> 52) % 2048
  let fraction : Nat := bits % hiddenBit
  if biased = 2047 then
    if fraction = 0 then .infinite negative else .nan
  else if biased = 0 then .finite negative fraction (-1074)
  else .finite negative (hiddenBit + fraction) ((biased : Int) - 1075)

/-- `n · 2^e` rounded towards negative infinity. -/
def scaleFloor (n e : Int) : Int :=
  if 0 ≤ e then n * (1 <<< e.toNat : Nat) else n.fdiv (1 <<< (-e).toNat : Nat)

/-- The 64-bit integer next to the value towards zero. Values out of range go to the nearer end,
and NaN goes to zero. -/
def truncate : Binary64 → Int64
  | .nan => 0
  | .infinite true => Int64.minValue
  | .infinite false => Int64.maxValue
  | .finite negative m e =>
    let size := scaleFloor (m : Int) e
    Int64.ofIntClamp (if negative then -size else size)

/-- As `truncate`, but towards negative infinity. -/
def floor : Binary64 → Int64
  | .finite negative m e => Int64.ofIntClamp (scaleFloor (if negative then -(m : Int) else m) e)
  | x => x.truncate

end Binary64

/-- The double nearest to a 64-bit integer, a half going to the even neighbour. -/
def nearestFloat (n : Int64) : Float :=
  if 0 ≤ n.toInt then n.toInt.toNat.toUInt64.toFloat
  else -(-n.toInt).toNat.toUInt64.toFloat

/-- Whole numbers below this have at most 53 bits and are doubles themselves. -/
def exactLimit : Nat := 1 <<< 53

/-- A natural number with all but its 53 leading bits rounded away, a half going to the even
neighbour: the value of the double nearest to it, below the range limit. -/
def roundTo53 (n : Nat) : Nat :=
  if n < exactLimit then n
  else
    let unit := 1 <<< (n.log2 - 52)
    let low := n / unit
    let rest := n % unit
    if 2 * rest < unit ∨ 2 * rest = unit ∧ low % 2 = 0 then low * unit else (low + 1) * unit

/-- `roundTo53` carried over to integers by their sign. -/
def nearestWhole (n : Int) : Int :=
  if 0 ≤ n then roundTo53 n.toNat else -(roundTo53 (-n).toNat : Int)

theorem roundTo53_of_lt {n : Nat} (h : n < exactLimit) : roundTo53 n = n := by
  unfold roundTo53
  exact if_pos h

theorem nearestWhole_of_natAbs_lt {n : Int} (h : n.natAbs < exactLimit) : nearestWhole n = n := by
  unfold nearestWhole
  split
  · rw [roundTo53_of_lt (by omega)]; omega
  · rw [roundTo53_of_lt (by omega)]; omega

/-- The power of two itself is a double, too. -/
theorem nearestWhole_of_natAbs_le {n : Int} (h : n.natAbs ≤ exactLimit) : nearestWhole n = n := by
  rcases Nat.lt_or_eq_of_le h with hlt | heq
  · exact nearestWhole_of_natAbs_lt hlt
  · rcases Int.natAbs_eq_iff.1 heq with rfl | rfl <;> decide

end Tabletop
