import Tabletop.Number.Basic

/-! The faces of one die. -/
namespace Tabletop

/-- The inclusive range a die rolls in. That its ends are in order is what every way of making dice sees to, so it is
part of what faces are. A fudge die is shown by its letter. -/
structure Faces where
  low : Int64
  high : Int64
  fudge : Bool
  low_le_high : low.toInt ≤ high.toInt
  deriving DecidableEq, Repr

namespace Faces

/-- The range between two bounds given in either order. -/
def between (a b : Int64) : Faces :=
  if h : b.toInt < a.toInt then ⟨b, a, false, Int.le_of_lt h⟩ else ⟨a, b, false, Int.not_lt.mp h⟩

/-- An ordinary die, counting from one. -/
def sided (n : Int64) : Faces := between 1 n

def percent : Faces := sided 100

def fudgeDie : Faces := ⟨-1, 1, true, by decide⟩

/-- The mean of the two ends. They are added in 64 bits, so where their sum does not fit it wraps around, and the mean is
not between the ends. -/
def average (f : Faces) : Float := (Number.whole (f.low + f.high)).toFloat / 2

def text (f : Faces) : String :=
  if f.fudge then "F"
  else if f.low = 1 then toString f.high.toInt
  else "[" ++ toString f.low.toInt ++ "," ++ toString f.high.toInt ++ "]"

end Faces
end Tabletop
