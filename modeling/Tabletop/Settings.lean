import Tabletop.Json.Decode
import Tabletop.Json.Encode

/-! How rolls are made and shown. -/
namespace Tabletop

/-- How a final value is rounded when it is shown. Stored values keep all their digits. -/
inductive Rounding where
  /-- Cut off behind two decimal places. -/
  | none
  /-- To the nearest whole number, a half upwards. -/
  | normal
  | up
  | down
  deriving DecidableEq, Repr

namespace Rounding

def name : Rounding → String
  | none => "none"
  | normal => "normal"
  | up => "up"
  | down => "down"

def ofName? : String → Option Rounding
  | "none" => some none
  | "normal" => some normal
  | "up" => some up
  | "down" => some down
  | _ => Option.none

/-- Drops what is behind the point. -/
def cut (x : Float) : Float := if x < 0 then x.ceil else x.floor

/-- Whole numbers need no rounding. -/
def apply : Rounding → Number → Number
  | _, .whole n => .whole n
  | none, .float x => .float (cut (x * 100) / 100)
  | normal, .float x => .float (x + 0.5).floor
  | up, .float x => .float x.ceil
  | down, .float x => .float x.floor

end Rounding

/-- Whether dice are rolled or stand for their averages. -/
inductive Mode where
  | roll
  | average
  deriving DecidableEq, Repr

namespace Mode

def name : Mode → String
  | roll => "roll"
  | average => "average"

def ofName? : String → Option Mode
  | "roll" => some roll
  | "average" => some average
  | _ => none

end Mode

/-- `maxRolls` bounds the dice of one roll, `maxDepth` the nesting of tables. Levels are counted as natural numbers. Where
they are counted in 64 bits, this holds for a `maxDepth` below `2^64 - 1`: the level behind the last one allowed is
asked for too. -/
structure Settings where
  rounding : Rounding := .normal
  mode : Mode := .roll
  maxRolls : Option Nat := some 1000
  maxDepth : Nat := 20
  seed : Option Nat := none
  deriving DecidableEq, Repr

namespace Settings

private def natOrNull (n : Option Nat) : String := (n.map toString).getD "null"

def toJson (s : Settings) : String :=
  Json.objectText
    [("round", Json.stringText s.rounding.name), ("mode", Json.stringText s.mode.name),
     ("max_rolls", natOrNull s.maxRolls), ("max_depth", toString s.maxDepth),
     ("seed", natOrNull s.seed)]

/-- Reads a member, or takes its default when it is missing. -/
def memberOr {α : Type} (byDefault : α) (read? : Json → Option α) : Option Json → Option α
  | none => some byDefault
  | some v => read? v

/-- Reads settings. What is missing has its default. -/
def ofJson? (s : String) : Option Settings := do
  let members ← (← Json.parse? s).members? ["round", "mode", "max_rolls", "max_depth", "seed"]
  let byDefault : Settings := {}
  match members with
  | [rounding, mode, maxRolls, maxDepth, seed] =>
    return {
      rounding := ← memberOr byDefault.rounding (·.toName?.bind Rounding.ofName?) rounding
      mode := ← memberOr byDefault.mode (·.toName?.bind Mode.ofName?) mode
      maxRolls := ← memberOr byDefault.maxRolls (·.orNull Json.toNat?) maxRolls
      maxDepth := ← memberOr byDefault.maxDepth Json.toNat? maxDepth
      seed := ← memberOr byDefault.seed (·.orNull Json.toNat?) seed }
  | _ => none

end Settings
end Tabletop
