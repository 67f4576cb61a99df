import Tabletop.Dice.Group
import Tabletop.Notation.Formula
import Tabletop.Record
import Tabletop.Settings

/-! Rolling a formula.

One pass over the tokens makes the groups, rolls them and notes the program that is left when they are
numbers; running that program gives the value. The groups of the first roll serve all later ones. -/
namespace Tabletop

/-- A step of the arithmetic that is left once all groups have a total. -/
inductive Instruction where
  | group (index : Nat)
  | literal (n : Number)
  | operator (op : Operator)
  deriving Repr

/-- A group and the text it stands for, with its modifiers. -/
structure PlacedGroup where
  group : DiceGroup
  span : Text.Span
  deriving Repr

/-- What a restored record shows in place of a roll. -/
structure Restored where
  trace : String
  stuntPoints : Option Number
  deriving Repr

/-- A formula that can be rolled. Before the first roll there are no groups and no program. `used` counts
the dice of the latest attempt. -/
structure Expression where
  formula : Formula
  settings : Settings
  used : Nat := 0
  groups : List PlacedGroup := []
  program : List Instruction := []
  value : Option Number := none
  averaged : Bool := false
  restored : Option Restored := none
  deriving Repr

/-- Combines two numbers. -/
def Operator.apply (op : Operator) (a b : Number) : Except RollError Number :=
  match op with
  | .add => .ok (a.add b)
  | .sub => .ok (a.sub b)
  | .mul => .ok (a.mul b)
  | .div => match a.div? b with
    | some q => .ok q
    | none => .error .zeroDivision
  | .pow => .ok (a.pow b)

/-- An operator with nothing to its left. -/
def Operator.applySign (op : Operator) (x : Number) : Except RollError Number :=
  match op with
  | .sub => .ok x.neg
  | .add => .ok x
  | _ => .error (.malformed (.needsTwoOperands op))

namespace Instruction

/-- Runs one instruction on a stack of numbers. -/
def step (groups : List PlacedGroup) : List Number → Instruction → Except RollError (List Number)
  | stack, group i =>
    match groups[i]? with
    | some g => .ok (g.group.total :: stack)
    | none => .error (.malformed .unknownGroup)
  | stack, literal n => .ok (n :: stack)
  | [], operator op => .error (.malformed (.missingOperands op))
  | [b], operator op => return [← op.applySign b]
  | b :: a :: stack, operator op => return (← op.apply a b) :: stack

/-- Runs a program, which has to leave one number. -/
def run (groups : List PlacedGroup) (program : List Instruction) : Except RollError Number := do
  match ← program.foldlM (step groups) [] with
  | [n] => return n
  | _ => throw (.malformed .leftoverOperands)

end Instruction

namespace Expression

def ofFormula (formula : Formula) (settings : Settings) : Expression := { formula, settings }

/-- The group that an operand token stands for. -/
def groupOf? : Token → Option DiceGroup
  | .number value => some (.literal { value })
  | .dice count faces conditions => some (.pool { count, faces, conditions })
  | .percentile count digits => some (.percentile (.ofDigits count digits))
  | .stunt => some (.stunt {})
  | .modifier .. | .operator _ => none

/-- A pass over the tokens in progress. `waiting` is a stack of operands, each the index of a group that
may not be rolled yet, or nothing left to roll. `next` is the index of the next group. The program is
in reverse. -/
structure Pass where
  groups : List PlacedGroup
  program : List Instruction
  waiting : List (Option Nat)
  next : Nat

namespace Pass
variable {σ : Type} [RandomSource σ]

/-- Rolls the group of a waiting operand, if there is one. -/
def rollAt (operand : Option Nat) (p : Pass) : RollM σ Pass :=
  match operand with
  | none => return p
  | some i =>
    match p.groups[i]? with
    | none => return p
    | some g => return { p with groups := p.groups.set i { g with group := ← g.group.roll } }

/-- Gives a modifier to the latest group. Groups made before this pass have theirs already. -/
def attach (made : Nat) (m : WrittenModifier) (conditions : List Condition) (stop : Nat) (p : Pass) :
    Except RollError Pass :=
  match p.next with
  | 0 => .error (.malformed .leadingModifier)
  | i + 1 =>
    match p.groups[i]? with
    | none => .ok p
    | some g =>
      if i < made then .ok p
      else
        let group := g.group.attach (m.resolve g.group.count conditions)
        let span : Text.Span := ⟨g.span.start, max g.span.stop stop⟩
        .ok { p with groups := p.groups.set i ⟨group, span⟩ }

/-- Takes an operand onto the stack, and makes its group unless an earlier pass did. -/
def operand (group : DiceGroup) (span : Text.Span) (p : Pass) : Pass :=
  { groups := if p.groups.length ≤ p.next then p.groups ++ [⟨group, span⟩] else p.groups
    program := .group p.next :: p.program
    waiting := some p.next :: p.waiting
    next := p.next + 1 }

/-- Rolls the operands of an operator, the right one first. -/
def operator (op : Operator) (p : Pass) : RollM σ Pass :=
  match p.waiting with
  | [] => throw (.malformed (.missingOperands op))
  | b :: rest => do
    let p ← p.rollAt b
    let p ← p.rollAt rest.head?.join
    return { p with program := .operator op :: p.program, waiting := none :: rest.tail }

/-- Takes one token. A number that stands for no text is part of a negation and no group. -/
def step (made : Nat) (p : Pass) (t : PlacedToken) : RollM σ Pass :=
  match t.token with
  | .modifier m conditions => liftM (p.attach made m conditions t.span.stop)
  | .operator op => p.operator op
  | .number value =>
    if t.span.isEmpty then
      return { p with program := .literal value :: p.program, waiting := none :: p.waiting }
    else return p.operand (.literal { value }) t.span
  | token =>
    match groupOf? token with
    | some group => return p.operand group t.span
    | none => return p

/-- Rolls an operand that no operator took. There has to be exactly one operand in the end. -/
def finish (p : Pass) : RollM σ Pass :=
  match p.waiting with
  | [last] => p.rollAt last
  | [] => throw (.unreadable .empty)
  | _ => throw (.malformed .leftoverOperands)

end Pass

variable {σ : Type} [RandomSource σ]

/-- Rolls all groups of a formula once. -/
def pass (e : Expression) : RollM σ Pass := do
  let start : Pass := ⟨e.groups, [], [], 0⟩
  let p ← e.formula.tokens.foldlM (Pass.step e.groups.length) start
  p.finish

/-- Puts averages in place of the rolls, and reworks them with fresh rolls where modifiers ask for
some. -/
def substituteAverages (groups : List PlacedGroup) : RollM σ (List PlacedGroup) :=
  groups.mapM fun g =>
    if g.group.isLiteral then return g
    else do
      let averages := List.replicate g.group.count (Number.float g.group.average)
      return { g with group := ← (g.group.setValues averages).reapply }

/-- Rolls all groups and runs the program on their totals, or on their averages where averages are
wanted and every group has one. -/
def evaluated (e : Expression) : RollM σ (Expression × Number) := do
  let p ← e.pass
  let program := p.program.reverse
  let value ← liftM (Instruction.run p.groups program)
  let done : Expression := { e with groups := p.groups, program, restored := none, averaged := false }
  if e.settings.mode = .average ∧ p.groups.all (·.group.supportsAverage) then
    let groups ← substituteAverages p.groups
    let value := (← liftM (Instruction.run groups program)).floor
    return ({ done with groups, value := some value, averaged := true }, value)
  else return ({ done with value := some value }, value)

/-- Rolls the formula. After a failure everything is as before but the count of dice. -/
def roll (e : Expression) : StateM σ (Except RollError Number × Expression) := fun source =>
  match e.evaluated.run.run (Cup.fill e.settings.maxRolls source) with
  | (.ok (e, value), cup) => ((.ok value, { e with used := cup.used }), cup.source)
  | (.error why, cup) => ((.error why, { e with used := cup.used }), cup.source)

/-- The value of the program over the totals of the groups as they are. -/
def recalculate (e : Expression) : Except RollError Number := Instruction.run e.groups e.program

def advisories (e : Expression) : List Advisory := e.groups.flatMap (·.group.advisories)

/-- The text from byte `last` on, with each group's results in the place of its notation. A group whose
span is empty, or does not follow the one before, stays out. -/
def resultsFrom (text : List Char) : (last : Nat) → List PlacedGroup → List Char
  | last, [] => (Text.dropBytes? last text).getD []
  | last, g :: rest =>
    if g.span.isEmpty || g.span.start < last then resultsFrom text last rest
    else
      match Text.slice? text ⟨last, g.span.start⟩ with
      | some before => before ++ g.group.text.toList ++ resultsFrom text g.span.stop rest
      | none => resultsFrom text last rest

/-- The formula with results in the place of dice. -/
def resultText (e : Expression) : String :=
  String.ofList (resultsFrom e.formula.text.toList 0 e.groups)

def trace (e : Expression) : String :=
  match e.restored with
  | some r => r.trace
  | none => e.formula.text ++ "\n" ++ (if e.averaged then "average: " else "") ++ e.resultText

/-- The trace on one line. -/
def fragment (e : Expression) : String :=
  String.ofList (e.trace.toList.flatMap fun c => if c = '\n' then " --> ".toList else [c])

def stuntPoints? (e : Expression) : Option Number :=
  match e.restored with
  | some r => r.stuntPoints
  | none => e.groups.findSome? (·.group.stuntPoints?)

/-- The value as it is shown, rounded. -/
def rendered (e : Expression) : String :=
  match e.value with
  | none => ""
  | some value =>
    let shown := (e.settings.rounding.apply value).text
    match e.stuntPoints? with
    | some points => shown ++ " - " ++ points.text ++ " Stunt Points"
    | none => shown

def toRecord (e : Expression) : Record :=
  { kind := .expression, value := .number (e.value.getD .zero), trace := e.trace,
    stuntPoints := e.stuntPoints? }

/-- Takes over a stored roll. -/
def restore (e : Expression) (r : Record) : Except RollError Expression :=
  if r.kind ≠ .expression then .error (.kindMismatch .expression r.kind)
  else
    match r.value with
    | .number n => .ok { e with value := some n, restored := some ⟨r.trace, r.stuntPoints⟩ }
    | .text _ => .error (.notANumber e.formula.text)

end Expression
end Tabletop
