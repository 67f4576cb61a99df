import Tabletop.Number.Layout

/-! Numbers as the dice arithmetic sees them: 64-bit integers as long as results stay exact, doubles
otherwise. Nothing wraps around. -/
namespace Tabletop

/-- A whole number or a double. -/
inductive Number where
  | whole (n : Int64)
  | float (x : Float)
  deriving Repr, Inhabited

/-- The integer as a 64-bit one, when it fits. -/
def fit? (r : Int) : Option Int64 :=
  if (Int64.ofInt r).toInt = r then some (Int64.ofInt r) else none

theorem fit?_eq_some_iff {r : Int} {x : Int64} : fit? r = some x ↔ x.toInt = r := by
  unfold fit?
  constructor
  · intro h
    split at h
    · rename_i hr
      cases h
      exact hr
    · cases h
  · rintro rfl
    rw [Int64.ofInt_toInt, if_pos rfl]

theorem fit?_toInt (x : Int64) : fit? x.toInt = some x := fit?_eq_some_iff.2 rfl

namespace Number

def zero : Number := .whole 0
def one : Number := .whole 1

def toFloat : Number → Float
  | .whole n => nearestFloat n
  | .float x => x

/-- The number as a 64-bit integer: doubles lose their fraction and stop at the ends of the range. -/
def toWhole : Number → Int64
  | .whole n => n
  | .float x => (Binary64.ofFloat x).truncate

def isNaN : Number → Bool
  | .whole _ => false
  | .float x => x.isNaN

/-- Rounds down to a whole number. -/
def floor : Number → Number
  | .whole n => .whole n
  | .float x => .whole (Binary64.ofFloat x).floor

/-- The exact integer when it fits, else the given double. -/
def exactOr (r : Int) (x : Float) : Number :=
  match fit? r with
  | some n => .whole n
  | none => .float x

def neg : Number → Number
  | .whole n => exactOr (-n.toInt) (-nearestFloat n)
  | .float x => .float (-x)

def add : Number → Number → Number
  | .whole x, .whole y => exactOr (x.toInt + y.toInt) (nearestFloat x + nearestFloat y)
  | a, b => .float (a.toFloat + b.toFloat)

def sub : Number → Number → Number
  | .whole x, .whole y => exactOr (x.toInt - y.toInt) (nearestFloat x - nearestFloat y)
  | a, b => .float (a.toFloat - b.toFloat)

def mul : Number → Number → Number
  | .whole x, .whole y => exactOr (x.toInt * y.toInt) (nearestFloat x * nearestFloat y)
  | a, b => .float (a.toFloat * b.toFloat)

/-- Orders two doubles. NaN is not comparable. -/
def compareFloat? (x y : Float) : Option Ordering :=
  if x < y then some .lt
  else if y < x then some .gt
  else if x == y then some .eq
  else none

/-- Orders two numbers by the doubles nearest to them. For two whole numbers those are found in
integer arithmetic. -/
def compare? : Number → Number → Option Ordering
  | .whole x, .whole y => some (compare (nearestWhole x.toInt) (nearestWhole y.toInt))
  | a, b => compareFloat? a.toFloat b.toFloat

instance : BEq Number := ⟨fun a b => a.compare? b == some .eq⟩

/-- Division. The quotient of whole numbers is whole only when it is exact, and there is no quotient
by zero. -/
def div? (a b : Number) : Option Number :=
  if b == zero then none
  else
    match a, b with
    | .whole x, .whole y =>
      if x.toInt % y.toInt = 0 then
        some (exactOr (x.toInt / y.toInt) (nearestFloat x / nearestFloat y))
      else some (.float (nearestFloat x / nearestFloat y))
    | a, b => some (.float (a.toFloat / b.toFloat))

/-- `x^y` when it fits. The exponent is below `2^32`, so one that large only matters for bases 0, 1
and -1; for all others 64 factors are too many. -/
def wholePow? (x : Int) (y : Nat) : Option Int64 :=
  if x.natAbs ≤ 1 then fit? (x.pow (if y = 0 then 0 else 2 - y % 2))
  else if y < 64 then fit? (x.pow y)
  else none

def pow (a b : Number) : Number :=
  let inexact := .float (a.toFloat.pow b.toFloat)
  match a, b with
  | .whole x, .whole y =>
    if 0 ≤ y.toInt ∧ y.toInt < UInt32.size then
      match wholePow? x.toInt y.toInt.toNat with
      | some n => .whole n
      | none => inexact
    else inexact
  | _, _ => inexact

/-- Adds from the left, starting at whole zero. -/
def sum (ns : List Number) : Number := ns.foldl add zero

/-- The number as shown to people. -/
def text : Number → String
  | .whole n => toString n.toInt
  | .float x => FloatLayout.plain.write x

end Number
end Tabletop
