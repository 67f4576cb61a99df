import Tabletop.Error
import Tabletop.Json.Decode
import Tabletop.Json.Encode
import Tabletop.Text.Blank
import Tabletop.Text.Split

/-! Finished rolls as they are stored, and as they are put back into a roller. -/
namespace Tabletop

def RollerKind.ofName? : String → Option RollerKind
  | "expression" => some expression
  | "table" => some table
  | "multi" => some multi
  | _ => none

/-- What a roll gives: a number, or the text of a table row. -/
inductive RollValue where
  | number (n : Number)
  | text (s : String)
  deriving Repr

namespace RollValue

def toNumber? : RollValue → Option Number
  | number n => some n
  | text _ => none

def shown : RollValue → String
  | number n => n.text
  | text s => s

instance : BEq RollValue where
  beq
    | number a, number b => a == b
    | text a, text b => a == b
    | _, _ => false

end RollValue

/-- A finished roll. `fragment` is its trace on one line, for use inside the traces of other rolls. -/
structure Record where
  kind : RollerKind
  value : RollValue
  trace : String
  stuntPoints : Option Number := none
  fragment : Option String := none
  deriving Repr

namespace Record

instance : BEq Record where
  beq a b := a.kind == b.kind && a.value == b.value && a.trace == b.trace &&
    a.stuntPoints == b.stuntPoints && a.fragment == b.fragment

/-- The trace on one line: the stored one, or the lines of the trace joined. -/
def fragmentOrTrace (r : Record) : String :=
  match r.fragment with
  | some fragment => fragment
  | none =>
    " ".intercalate
      ((Text.lines r.trace.toList).map fun line => String.ofList (Text.trimChars line))

def toJson (r : Record) : String :=
  let value := match r.value with
    | .number n => Json.numberText n
    | .text s => Json.stringText s
  let stunt := r.stuntPoints.map fun n => ("stunt_points", Json.numberText n)
  let fragment := r.fragment.map fun s => ("fragment", Json.stringText s)
  Json.objectText
    ([("kind", Json.stringText r.kind.name), ("value", value),
      ("trace", Json.stringText r.trace)] ++ stunt.toList ++ fragment.toList)

def valueOfJson? : Json → Option RollValue
  | .number n => n.toNumber?.map .number
  | .string s => s.map .text
  | _ => none

/-- Reads a record. Kind, value and trace are required. -/
def ofJson? (s : String) : Option Record := do
  let members ← (← Json.parse? s).members? ["kind", "value", "trace", "stunt_points", "fragment"]
  match members with
  | [some kind, some value, some trace, stunt, fragment] =>
    return {
      kind := ← kind.toName?.bind RollerKind.ofName?
      value := ← valueOfJson? value
      trace := ← trace.toText?
      stuntPoints := ← (stunt.getD .null).orNull Json.toNumber?
      fragment := ← (fragment.getD .null).orNull Json.toText? }
  | _ => none

end Record
end Tabletop
