import Tabletop.Number.Basic

/-! Decimal digits read as numbers. -/
namespace Tabletop.Text

def isDigit (c : Char) : Bool := '0' ≤ c && c ≤ '9'

def digitValue (c : Char) : Nat := c.toNat - '0'.toNat

/-- The number that digits spell, first digit most significant. -/
def natOfDigits (cs : List Char) : Nat := cs.foldl (fun n c => 10 * n + digitValue c) 0

/-- Reads one or more digits and nothing else. -/
def readNat? (cs : List Char) : Option Nat :=
  if cs ≠ [] ∧ cs.all isDigit then some (natOfDigits cs) else none

/-- As `readNat?`, for numbers up to a limit. -/
def readNatUpTo? (limit : Nat) (cs : List Char) : Option Nat :=
  (readNat? cs).filter (· ≤ limit)

/-- Reads digits behind an optional minus sign, when the number fits 64 bits. -/
def readWhole? : List Char → Option Int64
  | '-' :: cs => (readNat? cs).bind fun n => fit? (-(n : Int))
  | cs => (readNat? cs).bind fun n => fit? n

/-- Reads digits with or without a point behind an optional minus sign as the nearest double. -/
def readFloat? : List Char → Option Float
  | '-' :: cs => (unsigned cs).map (-·)
  | cs => unsigned cs
where
  unsigned (cs : List Char) : Option Float :=
    let whole := cs.takeWhile (· ≠ '.')
    let fraction := (cs.dropWhile (· ≠ '.')).drop 1
    (readNat? (whole ++ fraction)).map fun n => Float.ofScientific n true fraction.length

end Tabletop.Text
