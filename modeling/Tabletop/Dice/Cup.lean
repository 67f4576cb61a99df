import Tabletop.Dice.Faces
import Tabletop.Dice.Source
import Tabletop.Error

/-! A dice cup: a source of values and a limit on how many dice may be rolled from it. Dice are counted
before they are rolled, so a roll past the limit draws nothing but stays counted. -/
namespace Tabletop

/-- `used` counts the dice that were asked for, as a natural number: it does not wrap around before it passes the limit. -/
structure Cup (σ : Type) where
  limit : Option Nat
  used : Nat
  source : σ

/-- A computation that rolls dice. What was drawn and counted before a failure stays so. -/
abbrev RollM (σ : Type) := ExceptT RollError (StateM (Cup σ))

namespace Cup
variable {σ : Type} [RandomSource σ]

def fill (limit : Option Nat) (source : σ) : Cup σ := ⟨limit, 0, source⟩

/-- Starts counting again. -/
def reset (c : Cup σ) : Cup σ := { c with used := 0 }

/-- Asks the source without counting. -/
def draw (low high : Int64) : RollM σ Int64 := do
  let c ← get
  let (value, source) := RandomSource.between low high c.source
  set { c with source }
  return value

omit [RandomSource σ] in
/-- Counts `n` dice against the limit. -/
def spend (n : Nat) : RollM σ Unit := do
  let c ← get
  let used := c.used + n
  set { c with used }
  if c.limit.any (· < used) then throw .tooManyRolls

def between (low high : Int64) : RollM σ Int64 := do
  spend 1
  draw low high

def rollOne (faces : Faces) : RollM σ Number :=
  return .whole (← between faces.low faces.high)

/-- Rolls `n` equal dice. All are counted before the first is rolled. -/
def roll (n : Nat) (faces : Faces) : RollM σ (List Number) := do
  spend n
  (List.replicate n faces).mapM fun f => return .whole (← draw f.low f.high)

end Cup
end Tabletop
