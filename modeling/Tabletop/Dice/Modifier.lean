import Tabletop.Dice.Condition

/-! What may be done to a rolled pool, as written and as resolved against the pool. -/
namespace Tabletop

inductive ModifierKind where
  | keepHigh
  | keepLow
  | explode
  | explodeCombine
  | reroll
  deriving DecidableEq, Repr

def ModifierKind.text : ModifierKind → String
  | keepHigh => "kh"
  | keepLow => "kl"
  | explode => "!"
  | explodeCombine => "!!"
  | reroll => "r"

/-- A rule applied to a pool after it is rolled. -/
structure Modifier where
  kind : ModifierKind
  count : Nat
  conditions : List Condition := []
  deriving Repr

def Modifier.text (m : Modifier) : String :=
  m.kind.text ++ toString m.count ++ String.join (m.conditions.map Condition.text)

/-- How often a die may explode or be rolled again. -/
inductive Repeats where
  | unbounded
  | times (n : Nat)
  deriving DecidableEq, Repr

/-- Even without a written bound a die repeats at most this often. -/
def maxRepeats : Nat := 100

def Repeats.count : Repeats → Nat
  | unbounded => maxRepeats
  | times n => n

/-- A modifier as written. How many dice a drop keeps depends on the pool it follows. -/
inductive WrittenModifier where
  | keepHigh (n : Nat)
  | keepLow (n : Nat)
  | dropHigh (n : Nat)
  | dropLow (n : Nat)
  | explode (r : Repeats)
  | explodeCombine (r : Repeats)
  | reroll (r : Repeats)
  deriving DecidableEq, Repr

namespace WrittenModifier

/-- Whether conditions may be written behind it. -/
def takesConditions : WrittenModifier → Bool
  | explode _ | explodeCombine _ | reroll _ => true
  | _ => false

/-- The largest count of dice that a modifier can hold. -/
def maxCount : Nat := UInt32.size - 1

/-- The rule for a pool of `dice` dice. Dropping from one end keeps the rest at the other. -/
def resolve (m : WrittenModifier) (dice : Nat) (conditions : List Condition) : Modifier :=
  let kept (n : Nat) : Nat := min dice maxCount - n
  match m with
  | keepHigh n => ⟨.keepHigh, n, conditions⟩
  | keepLow n => ⟨.keepLow, n, conditions⟩
  | dropHigh n => ⟨.keepLow, kept n, conditions⟩
  | dropLow n => ⟨.keepHigh, kept n, conditions⟩
  | explode r => ⟨.explode, r.count, conditions⟩
  | explodeCombine r => ⟨.explodeCombine, r.count, conditions⟩
  | reroll r => ⟨.reroll, r.count, conditions⟩

end WrittenModifier

/-- What happened to a die, shown behind its value. -/
inductive Tag where
  | dropped
  | rerolled
  | exploded
  | success
  | failure
  deriving DecidableEq, Repr

def Tag.char : Tag → Char
  | dropped => 'd'
  | rerolled => 'r'
  | exploded => '!'
  | success => '*'
  | failure => '-'

end Tabletop
