import Tabletop.Dice.Rules

/-! The operands of a formula: pools of dice, stunt pools, percentile dice and plain numbers. Each can be
rolled, shown and totalled. -/
namespace Tabletop

/-- Equal dice rolled together, with the modifiers and success conditions that rework them. `rolled`
holds the values before any of that. -/
structure DicePool where
  count : Nat
  faces : Faces
  conditions : List Condition := []
  modifiers : List Modifier := []
  rolled : List Number := []
  results : DiceSequence := .empty
  deriving Repr

namespace DicePool
variable {σ : Type} [RandomSource σ]

/-- Applies the modifiers in order, then the conditions, to the rolled values. -/
def rework (p : DicePool) : RollM σ DiceSequence := do
  let reworked ← p.modifiers.foldlM (fun s m => m.apply p.faces s) (.ofValues p.rolled)
  return if p.conditions.isEmpty then reworked else reworked.score p.conditions

/-- Rolls all dice afresh. -/
def roll (p : DicePool) : RollM σ DicePool := do
  let rolled ← Cup.roll p.count p.faces
  let p := { p with rolled }
  return { p with results := ← p.rework }

/-- Reworks the values that are already rolled. -/
def reapply (p : DicePool) : RollM σ DicePool :=
  return { p with results := ← p.rework }

/-- Puts values in place of the rolled ones. -/
def setValues (p : DicePool) (values : List Number) : DicePool :=
  { p with rolled := values, results := .ofValues values }

/-- Puts a modifier in the place of the one of its kind. -/
def replaceModifier (m : Modifier) : List Modifier → List Modifier
  | [] => [m]
  | old :: rest => if old.kind = m.kind then m :: rest else old :: replaceModifier m rest

/-- Adds a modifier. There is at most one of each kind, and a later one wins. -/
def attach (p : DicePool) (m : Modifier) : DicePool :=
  { p with modifiers := replaceModifier m p.modifiers }

def total (p : DicePool) : Number := p.results.sum

end DicePool

/-- Three six-sided dice. When two of them agree, the first one counts as stunt points. -/
structure StuntPool where
  dice : DicePool := { count := 3, faces := .sided 6 }
  deriving Repr

namespace StuntPool

/-- The different numbers in a list. -/
def distinct (ns : List Number) : List Number :=
  ns.foldl (fun seen n => if seen.any (· == n) then seen else seen ++ [n]) []

/-- Whether fewer than three different numbers count. -/
def doubles (p : StuntPool) : Bool :=
  (distinct (p.dice.results.toList.map (·.total))).length < 3

def stuntPoints? (p : StuntPool) : Option Number :=
  if p.doubles then p.dice.results.values.head? else none

/-- The values without tags, the first one marked if it counts as stunt points. -/
def text (p : StuntPool) : String :=
  let shown := p.dice.results.values.map Number.text
  let marked := match shown with
    | first :: rest => (if p.doubles then first ++ "S" else first) :: rest
    | [] => []
  "[" ++ ", ".intercalate marked ++ "]"

end StuntPool

/-- Dice that each give one decimal digit of a number. `rows` holds the digits rolled for each number,
zeros before the first roll. -/
structure PercentileDice where
  count : Nat
  digits : List Int64
  rows : List (List Int64)
  advisories : List Advisory := []
  deriving Repr

namespace PercentileDice
variable {σ : Type} [RandomSource σ]

def ofDigits (count : Nat) (digits : List Int64) : PercentileDice :=
  { count, digits, rows := List.replicate count (digits.map fun _ => 0) }

def wholeText (n : Int64) : String := toString n.toInt

/-- The number that a row of digits spells, zero if it spells none that fits. -/
def rowValue (row : List Int64) : Number :=
  .whole ((Text.readWhole? (row.flatMap fun n => (wholeText n).toList)).getD 0)

def total (p : PercentileDice) : Number := .sum (p.rows.map rowValue)

def text (p : PercentileDice) : String :=
  "|".intercalate (p.rows.map fun row => ",".intercalate (row.map wholeText))

def digitsText (p : PercentileDice) : String := String.join (p.digits.map wholeText)

/-- Halfway between all ones and the highest digits. -/
def average (p : PercentileDice) : Float :=
  let low := p.digits.map fun _ => '1'
  let read (cs : List Char) : Float := (Text.readFloat? cs).getD 0
  (read low + read p.digitsText.toList) / 2

/-- Rolls every digit of every number, row by row. -/
def roll (p : PercentileDice) : RollM σ PercentileDice := do
  let rows ← (List.replicate p.count p.digits).mapM fun row =>
    row.mapM fun d => Cup.between (Faces.sided d).low (Faces.sided d).high
  return { p with rows }

end PercentileDice

/-- A number where dice could stand. It is never rolled or reworked. -/
structure Literal where
  value : Number
  advisories : List Advisory := []
  deriving Repr

inductive DiceGroup where
  | literal (l : Literal)
  | pool (p : DicePool)
  | percentile (p : PercentileDice)
  | stunt (p : StuntPool)
  deriving Repr

namespace DiceGroup
variable {σ : Type} [RandomSource σ]

def count : DiceGroup → Nat
  | literal _ => 1
  | pool p => p.count
  | percentile p => p.count
  | stunt _ => 3

def isLiteral : DiceGroup → Bool
  | literal _ => true
  | _ => false

/-- Whether averages may stand in for its rolls. -/
def supportsAverage : DiceGroup → Bool
  | literal _ | pool _ => true
  | percentile _ | stunt _ => false

/-- The expected value of one die. -/
def average : DiceGroup → Float
  | literal _ => 0
  | pool p => p.faces.average
  | percentile p => p.average
  | stunt p => p.dice.faces.average

/-- Rolls every die afresh. -/
def roll : DiceGroup → RollM σ DiceGroup
  | literal l => return literal l
  | pool p => return pool (← p.roll)
  | percentile p => return percentile (← p.roll)
  | stunt p => return stunt ⟨← p.dice.roll⟩

/-- Runs modifiers and conditions again over the rolled values. -/
def reapply : DiceGroup → RollM σ DiceGroup
  | pool p => return pool (← p.reapply)
  | stunt p => return stunt ⟨← p.dice.reapply⟩
  | g => return g

/-- Puts values in place of rolls. Literals and percentile dice keep their own. -/
def setValues (values : List Number) : DiceGroup → DiceGroup
  | pool p => pool (p.setValues values)
  | stunt p => stunt ⟨p.dice.setValues values⟩
  | g => g

/-- Adds a modifier where dice can take one, and notes the misuse elsewhere. -/
def attach (m : Modifier) : DiceGroup → DiceGroup
  | literal l =>
    literal { l with advisories := l.advisories ++ [.modifierMisuse l.value.text m.kind] }
  | pool p => pool (p.attach m)
  | percentile p =>
    let dice := toString p.count ++ "d%" ++ p.digitsText
    percentile { p with advisories := p.advisories ++ [.modifierMisuse dice m.kind] }
  | stunt p => stunt ⟨p.dice.attach m⟩

def total : DiceGroup → Number
  | literal l => l.value
  | pool p => p.total
  | percentile p => p.total
  | stunt p => p.dice.total

def text : DiceGroup → String
  | literal l => l.value.text
  | pool p => p.results.text
  | percentile p => p.text
  | stunt p => p.text

def advisories : DiceGroup → List Advisory
  | literal l => l.advisories
  | percentile p => p.advisories
  | pool _ | stunt _ => []

def stuntPoints? : DiceGroup → Option Number
  | stunt p => p.stuntPoints?
  | _ => none

end DiceGroup

/-- Runs a roll on something and puts the result in its place. After a failure the old one stays. -/
def RollM.update {σ α : Type} (act : α → RollM σ α) (a : α) :
    StateM (Cup σ) (Except RollError Unit × α) := do
  match ← (act a).run with
  | .ok b => return (.ok (), b)
  | .error e => return (.error e, a)

end Tabletop
