import Tabletop.Error
import Tabletop.Table.Marker

/-! Texts with the formulas in them rolled. -/
namespace Tabletop

/-- What rolling an embedded formula gives: the text of its value, and its trace on one line. -/
structure Rolled where
  value : String
  fragment : String
  deriving DecidableEq, Repr

/-- Builds and rolls a formula one level deeper. -/
abbrev RollFormula (σ : Type) := String → ExceptT RollError (StateM σ) Rolled

namespace Marker
variable {σ : Type}

/-- Rolls the formulas from the left. Each value comes behind the text before its marker and is not
searched for markers itself. -/
def fill (roll : RollFormula σ) (tail : List Char) :
    List (List Char × List Char) → ExceptT RollError (StateM σ) (List Char × List String)
  | [] => return (tail, [])
  | (before, formula) :: parts => do
    let rolled ← roll (.ofList (Text.trimChars formula))
    let (text, fragments) ← fill roll tail parts
    return (before ++ rolled.value.toList ++ text, rolled.fragment :: fragments)

/-- A text with every marker replaced by the value of its formula, and the traces of the formulas. -/
def expand (roll : RollFormula σ) (text : String) :
    ExceptT RollError (StateM σ) (String × List String) := do
  let c := cut text.toList
  let (text, fragments) ← fill roll c.tail c.parts
  return (.ofList text, fragments)

end Marker
end Tabletop
