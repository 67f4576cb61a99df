import Tabletop.Number.Basic

/-! Conditions on a rolled value, such as `>=5`. -/
namespace Tabletop

/-- How a rolled value is compared. `negate` picks the dice that count as failures in a pool of
successes and is never met by itself. -/
inductive Comparison where
  | equal
  | notEqual
  | less
  | lessEqual
  | greater
  | greaterEqual
  | negate
  deriving DecidableEq, Repr

namespace Comparison

def text : Comparison → String
  | equal => "="
  | notEqual => "!="
  | less => "<"
  | lessEqual => "<="
  | greater => ">"
  | greaterEqual => ">="
  | negate => "-="

/-- Reads a comparison sign. Two of them may be written either way round. -/
def ofText? : String → Option Comparison
  | "=" => some equal
  | "!=" | "=!" => some notEqual
  | "<" => some less
  | "<=" => some lessEqual
  | ">" => some greater
  | ">=" => some greaterEqual
  | "-=" | "=-" => some negate
  | _ => none

theorem ofText?_text (c : Comparison) : ofText? c.text = some c := by cases c <;> rfl

/-- Whether the sign holds of two numbers that compare as given. -/
def accepts : Comparison → Option Ordering → Bool
  | equal, o => o == some .eq
  | notEqual, o => o != some .eq
  | less, o => o == some .lt
  | lessEqual, o => o == some .lt || o == some .eq
  | greater, o => o == some .gt
  | greaterEqual, o => o == some .gt || o == some .eq
  | negate, _ => false

end Comparison

/-- A comparison with a fixed number. -/
structure Condition where
  comparison : Comparison
  bound : Number
  deriving Repr

namespace Condition

def equalTo (n : Int64) : Condition := ⟨.equal, .whole n⟩

/-- Nothing is met by NaN, and a NaN bound is met by nothing. -/
def isMetBy (c : Condition) (value : Number) : Bool :=
  !value.isNaN && !c.bound.isNaN && c.comparison.accepts (value.compare? c.bound)

def isNegate (c : Condition) : Bool := c.comparison == .negate

def text (c : Condition) : String := c.comparison.text ++ c.bound.text

/-- Whether a value passes a list of conditions: one is enough, and an empty list passes all. -/
def anyMet (cs : List Condition) (value : Number) : Bool :=
  cs.isEmpty || cs.any (·.isMetBy value)

end Condition
end Tabletop
