import Tabletop.Json.Value

/-! What is read out of a JSON value: numbers, texts, and the members of a structure. -/
namespace Tabletop

namespace NumberText

/-- The largest number that digits are collected into. -/
def maxSignificand : Nat := UInt64.size - 1

/-- Appends digits to a number as long as it stays in range, and says how many were left over. -/
def collect : Nat → List Char → Nat × List Char
  | n, [] => (n, [])
  | n, c :: cs =>
    let longer := 10 * n + Text.digitValue c
    if longer ≤ maxSignificand then collect longer cs else (n, c :: cs)

/-- `significand · 10^exponent` in doubles: one multiplication or division by a power of ten. A
negative exponent beyond the range of powers is taken in steps of 308. There is no result beyond the
range of doubles. -/
def scale? : (steps : Nat) → Float → Int → Option Float
  | 0, f, _ => some f
  | steps + 1, f, e =>
    if e.natAbs ≤ 308 then
      let power := Float.ofScientific 1 false e.natAbs
      if 0 ≤ e then
        let scaled := f * power
        if scaled.isInf then none else some scaled
      else some (f / power)
    else if f == 0 then some f
    else if 0 ≤ e then none
    else scale? steps (f / Float.ofScientific 1 false 308) (e + 308)

/-- The largest exponent that is taken at its word. -/
def maxExponent : Nat := 2147483647

/-- The nearest double, as far as the collected digits tell. -/
def toFloat? (n : NumberText) : Option Float := do
  let (whole, dropped) := collect 0 n.whole
  let fraction := n.fraction.getD []
  let (significand, unused) := collect whole fraction
  let shift : Int := (dropped.length : Int) - ((fraction.length - unused.length : Nat) : Int)
  let (negative, exponent) := match n.exponent with
    | some (negative, ds) => (negative, Text.natOfDigits ds)
    | none => (false, 0)
  let size ←
    if maxExponent < exponent then
      if significand ≠ 0 ∧ ¬negative then none else some 0
    else
      let e := if negative then shift - exponent else shift + exponent
      scale? (e.natAbs / 308 + 2) significand.toUInt64.toFloat e
  return if n.negative then -size else size

/-- A number without point and exponent, and not minus zero, as the integer it is. -/
def toInt? (n : NumberText) : Option Int :=
  if n.fraction.isSome || n.exponent.isSome then none
  else
    let size := Text.natOfDigits n.whole
    if n.negative then (if size = 0 then none else some (-(size : Int))) else some size

/-- A whole number where it is written as one and fits, else a double. -/
def toNumber? (n : NumberText) : Option Number :=
  match n.toInt?.bind fit? with
  | some w => some (.whole w)
  | none => n.toFloat?.map .float

end NumberText

namespace Json

/-- A natural number of at most 64 bits. -/
def toNat? : Json → Option Nat
  | number n => n.toInt?.bind fun i => if 0 ≤ i ∧ i < UInt64.size then some i.toNat else none
  | _ => none

def toNumber? : Json → Option Number
  | number n => n.toNumber?
  | _ => none

def toText? : Json → Option String
  | string s => s
  | _ => none

/-- A value where `null` means that there is none. -/
def orNull {α : Type} (read? : Json → Option α) : Json → Option (Option α)
  | null => some none
  | v => (read? v).map some

/-- One of several names, written as a string or as the only key of an object, with `null` behind it. -/
def toName? : Json → Option String
  | string s => s
  | object [(key, null)] => key
  | _ => none

/-- The values under a key. -/
def under (name : String) (fields : List (String × Json)) : List Json :=
  (fields.filter (·.1 == name)).map (·.2)

/-- The values of the named members of a structure, in the order of the names. An object may have other
keys too but none of the names twice; an array lists the members in order and may end early. -/
def members? (names : List String) : Json → Option (List (Option Json))
  | object fields => do
    let fields ← fields.mapM fun (key, v) => key.map fun k => (k, v)
    names.mapM fun name =>
      match under name fields with
      | [] => some none
      | [v] => some (some v)
      | _ => none
  | array items =>
    if items.length ≤ names.length then
      some (items.map some ++ List.replicate (names.length - items.length) none)
    else none
  | _ => none

end Json
end Tabletop
