import Tabletop.Roller

/-! From texts to rollers. A text is several formulas, a reference to a table, or dice notation, told
apart by its shape.

Tables lead to further formulas: a lookup table when it is loaded, any table when it is rolled. Each
step lies one level deeper, and `room` counts the levels that are left, so nothing goes on forever. -/
namespace Tabletop

/-- Settings, tables, and how formulas are read. -/
structure Engine where
  settings : Settings := {}
  tables : Store := {}
  read : FormulaReader := Formula.read

namespace Engine

/-- The failure of going too deep. -/
def tooDeep (g : Engine) : RollError := .recursionLimit g.settings.maxDepth

/-- How many levels there are from a depth on. -/
def room (g : Engine) (depth : Nat) : Nat := g.settings.maxDepth + 1 - depth

/-- Loads a table, with a builder for its lookup formula. -/
def loadWith (g : Engine) (deeper : String → Except RollError Roller) (text : String) :
    Except RollError Table :=
  Table.load g.tables (fun formula => (deeper formula).map (·.expression?)) text

/-- Builds one formula: a table if it reads as a reference. -/
def partWith (g : Engine) (deeper : String → Except RollError Roller) (text : String) :
    Except RollError Part := do
  let text := Text.trim text
  match Reference.read text with
  | .ok _ => return .table (← g.loadWith deeper text)
  | .error _ =>
    let formula ← (g.read text).mapError .unreadable
    return .expression (.ofFormula formula g.settings)

/-- The formulas between semicolons that are not blank. -/
def splitParts (text : String) : List String :=
  (((Text.splitOn ';' text.toList).map Text.trimChars).filter (· ≠ [])).map String.ofList

def batchWith (build : String → Except RollError Part) (text : String) : Except RollError Batch :=
  return { text := Text.trim text, parts := ← (splitParts text).mapM build }

/-- Builds a roller, with a builder for formulas one level deeper. -/
def buildWith (g : Engine) (deeper : String → Except RollError Roller) (text : String) :
    Except RollError Roller := do
  let text := Text.trim text
  if text.toList.contains ';' then return .batch (← batchWith (g.partWith deeper) text)
  else return .part (← g.partWith deeper text)

/-- Builds a roller with some levels to go. -/
def buildWithin (g : Engine) : (room : Nat) → String → Except RollError Roller
  | 0, _ => .error g.tooDeep
  | room + 1, text => g.buildWith (g.buildWithin room) text

def partWithin (g : Engine) : (room : Nat) → String → Except RollError Part
  | 0, _ => .error g.tooDeep
  | room + 1, text => g.partWith (g.buildWithin room) text

/-- Builds a roller below `depth` tables. -/
def build (g : Engine) (text : String) (depth : Nat) : Except RollError Roller :=
  g.buildWithin (g.room depth) text

/-- Loads a table below `depth` tables. Its lookup formula lies one level deeper. -/
def load (g : Engine) (text : String) (depth : Nat) : Except RollError Table :=
  g.loadWith (g.buildWithin (g.room (depth + 1))) text

/-- Builds the formulas between semicolons below `depth` tables. -/
def batch (g : Engine) (text : String) (depth : Nat) : Except RollError Batch :=
  batchWith (g.partWithin (g.room depth)) text

variable {σ : Type} [RandomSource σ]

/-- Builds and rolls a formula with some levels to go. -/
def rollWithin (g : Engine) : (room : Nat) → RollFormula σ
  | 0, _ => throw g.tooDeep
  | room + 1, text => do
    let roller ← liftM (g.buildWith (g.buildWithin room) text)
    let (outcome, roller) ← (roller.roll (.ok (g.rollWithin room)) : StateM σ _)
    let value ← liftM outcome
    return ⟨value.shown, roller.fragment⟩

/-- How rollers below `depth` tables roll the formulas in their tables. -/
def nested (g : Engine) (depth : Nat) : Nested σ :=
  match g.room depth with
  | 0 => .error g.tooDeep
  | room + 1 => .ok (g.rollWithin room)

/-- Builds and rolls a formula. -/
def roll (g : Engine) (text : String) : StateM σ (Except RollError Roller) := do
  match g.build text 0 with
  | .error why => return .error why
  | .ok roller =>
    let (outcome, roller) ← roller.roll (g.nested 0)
    return outcome.map fun _ => roller

omit [RandomSource σ] in
/-- Builds a formula and takes over a stored roll. -/
def restore (g : Engine) (text : String) (r : Record) : Except RollError Roller :=
  g.build text 0 >>= Roller.restore r

end Engine

/-- Reads and rolls dice notation by itself. -/
def rollNotation {σ : Type} [RandomSource σ] (text : String) (settings : Settings) :
    StateM σ (Except RollError Number) := do
  match Formula.read text with
  | .error why => return .error (.unreadable why)
  | .ok formula => return (← (Expression.ofFormula formula settings).roll).1

end Tabletop
