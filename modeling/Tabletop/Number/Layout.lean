import Tabletop.Number.Shortest

/-! How a double is written out. One layout is for people and one for stored records; they differ in
when an exponent is used and in whether a whole value shows its point. -/
namespace Tabletop

/-- The decisions of a number format. Positions count digits before the point. -/
structure FloatLayout where
  tie : Tie
  /-- Values with more digits before the point than this get an exponent. -/
  maxPoint : Option Int
  /-- Values with their first digit this far behind the point, or further, get an exponent. -/
  minPoint : Option Int
  /-- What follows the digits of a whole value. -/
  wholeSuffix : String
  /-- The sign of an exponent that is not negative. -/
  plus : String
  nan : String
  infinity : String

namespace FloatLayout

/-- Shown to people: always positional, whole values without a point. -/
def plain : FloatLayout :=
  { tie := .up, maxPoint := none, minPoint := none, wholeSuffix := "", plus := "", nan := "NaN",
    infinity := "inf" }

/-- Stored in records: a point or an exponent marks a float, and values that are no numbers are
stored as `null`. -/
def record : FloatLayout :=
  { tie := .even, maxPoint := some 16, minPoint := some (-5), wholeSuffix := ".0", plus := "+",
    nan := "null", infinity := "null" }

private def zeros (n : Int) : List Char := List.replicate n.toNat '0'

/-- Writes `0.d₁d₂… · 10^point`. -/
def digits (f : FloatLayout) (ds : List Char) (point : Int) : List Char :=
  let tooLarge := f.maxPoint.any fun top => top < point
  let tooSmall := f.minPoint.any fun low => point ≤ low
  if tooLarge || tooSmall then
    let e := point - 1
    let mantissa := match ds with
      | [] => []
      | [d] => [d]
      | d :: rest => d :: '.' :: rest
    let sign := if 0 ≤ e then f.plus.toList else []
    mantissa ++ 'e' :: sign ++ (toString e).toList
  else if point ≤ 0 then '0' :: '.' :: zeros (-point) ++ ds
  else if ds.length ≤ point.toNat then ds ++ zeros (point - ds.length) ++ f.wholeSuffix.toList
  else ds.take point.toNat ++ '.' :: ds.drop point.toNat

/-- Writes a decoded double. Infinities keep their sign only where they are written as such. -/
def binary (f : FloatLayout) : Binary64 → String
  | .nan => f.nan
  | .infinite negative => if negative ∧ f.infinity ≠ f.nan then "-" ++ f.infinity else f.infinity
  | .finite negative m q =>
    let body :=
      if m = 0 then '0' :: f.wholeSuffix.toList
      else
        let d := Decimal.shortest f.tie m q
        let ds := Nat.toDigits 10 d.coefficient
        f.digits ds (ds.length + d.exponent)
    String.ofList (if negative then '-' :: body else body)

def write (f : FloatLayout) (x : Float) : String := f.binary (.ofFloat x)

end FloatLayout
end Tabletop
