import Tabletop.Table.Draw

/-! Everything that can be rolled: an expression, a table, or several of them at once. -/
namespace Tabletop

/-- One formula: an expression or a table. -/
inductive Part where
  | expression (e : Expression)
  | table (t : Table)
  deriving Repr

/-- How a roll at some depth rolls formulas in tables, or why it must not. -/
abbrev Nested (σ : Type) := Except RollError (RollFormula σ)

namespace Part
variable {σ : Type} [RandomSource σ]

/-- Rolls a part. Only tables go deeper. -/
def roll (nested : Nested σ) : Part → StateM σ (Except RollError RollValue × Part)
  | expression e => do
    let (outcome, e) ← e.roll
    return (outcome.map .number, expression e)
  | table t =>
    match nested with
    | .error why => return (.error why, table t)
    | .ok roll => do
      let (outcome, t) ← t.roll roll
      return (outcome, table t)

def kind : Part → RollerKind
  | expression _ => .expression
  | table _ => .table

def text : Part → String
  | expression e => e.formula.text
  | table t => t.text

def value : Part → Option RollValue
  | expression e => e.value.map .number
  | table t => t.result.map .text

def rendered : Part → String
  | expression e => e.rendered
  | table t => t.rendered

def trace : Part → String
  | expression e => e.trace
  | table t => t.trace

def fragment : Part → String
  | expression e => e.fragment
  | table t => t.fragment

def toRecord : Part → Record
  | expression e => e.toRecord
  | table t => t.toRecord

def restore (r : Record) : Part → Except RollError Part
  | expression e => (e.restore r).map expression
  | table t => (t.restore r).map table

end Part

/-- Several parts rolled together. -/
structure Batch where
  text : String
  parts : List Part
  result : Option String := none
  /-- Trace and fragment of a stored roll. -/
  restored : Option (String × String) := none
  deriving Repr

namespace Batch
variable {σ : Type} [RandomSource σ]

/-- Rolls the parts from the left up to the first failure. All keep what was done to them. -/
def rollParts (nested : Nested σ) :
    List Part → StateM σ (Except RollError Unit × List Part)
  | [] => return (.ok (), [])
  | p :: parts => do
    let (outcome, p) ← p.roll nested
    match outcome with
    | .error why => return (.error why, p :: parts)
    | .ok _ =>
      let (outcome, parts) ← rollParts nested parts
      return (outcome, p :: parts)

def roll (nested : Nested σ) (b : Batch) : StateM σ (Except RollError RollValue × Batch) := do
  let (outcome, parts) ← rollParts nested b.parts
  match outcome with
  | .error why => return (.error why, { b with parts })
  | .ok () =>
    let result := ", ".intercalate (parts.map Part.rendered)
    return (.ok (.text result), { b with parts, result := some result, restored := none })

def rendered (b : Batch) : String := b.result.getD ""

/-- The trace of a stored roll, or else the traces of the parts as they are. -/
def fragment (b : Batch) : String :=
  match b.restored with
  | some (_, fragment) => fragment
  | none => " ;".intercalate (b.parts.map Part.fragment)

def trace (b : Batch) : String :=
  match b.restored with
  | some (trace, _) => trace
  | none => Text.outline b.fragment

def toRecord (b : Batch) : Record :=
  { kind := .multi, value := .text b.rendered, trace := b.trace, fragment := some b.fragment }

/-- Takes over a stored roll. -/
def restore (b : Batch) (r : Record) : Except RollError Batch :=
  if r.kind ≠ .multi then .error (.kindMismatch .multi r.kind)
  else .ok { b with result := some r.value.shown, restored := some (r.trace, r.fragmentOrTrace) }

end Batch

inductive Roller where
  | part (p : Part)
  | batch (b : Batch)
  deriving Repr

namespace Roller
variable {σ : Type} [RandomSource σ]

def roll (nested : Nested σ) : Roller → StateM σ (Except RollError RollValue × Roller)
  | part p => do
    let (outcome, p) ← p.roll nested
    return (outcome, part p)
  | batch b => do
    let (outcome, b) ← b.roll nested
    return (outcome, batch b)

def kind : Roller → RollerKind
  | part p => p.kind
  | batch _ => .multi

def text : Roller → String
  | part p => p.text
  | batch b => b.text

def value : Roller → Option RollValue
  | part p => p.value
  | batch b => b.result.map .text

def rendered : Roller → String
  | part p => p.rendered
  | batch b => b.rendered

def trace : Roller → String
  | part p => p.trace
  | batch b => b.trace

def fragment : Roller → String
  | part p => p.fragment
  | batch b => b.fragment

def toRecord : Roller → Record
  | part p => p.toRecord
  | batch b => b.toRecord

def restore (r : Record) : Roller → Except RollError Roller
  | part p => (p.restore r).map part
  | batch b => (b.restore r).map batch

/-- The expression, if it is one. -/
def expression? : Roller → Option Expression
  | part (.expression e) => some e
  | _ => none

end Roller
end Tabletop
