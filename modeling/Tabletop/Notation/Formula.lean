import Tabletop.Error

/-! Formulas in postfix order, and how a text is brought into that order.

Operators wait on a stack until their right operand is complete. `^` binds tightest and to the right,
then negation, then `*` and `/`, then `+` and `-`. -/
namespace Tabletop

/-- One element of a formula in postfix order. A modifier follows the dice it applies to. -/
inductive Token where
  | number (value : Number)
  | dice (count : Nat) (faces : Faces) (conditions : List Condition)
  | percentile (count : Nat) (digits : List Int64)
  | stunt
  | modifier (m : WrittenModifier) (conditions : List Condition)
  | operator (op : Operator)
  deriving Repr

/-- A token and the text it was read from. -/
structure PlacedToken where
  token : Token
  span : Text.Span
  deriving Repr

/-- A text and its tokens in postfix order. -/
structure Formula where
  text : String
  tokens : List PlacedToken
  deriving Repr

/-- Anything that reads formulas. -/
abbrev FormulaReader := String → Except NotationError Formula

namespace Formula

/-- What waits for its right operand, or for its closing parenthesis. -/
inductive Pending where
  | binary (op : Operator)
  | negate
  | openParen
  deriving DecidableEq, Repr

def strength : Operator → Nat
  | .add | .sub => 2
  | .mul | .div => 4
  | .pow => 6

namespace Pending

/-- How tightly it binds. A parenthesis holds everything back. -/
def strength : Pending → Nat
  | binary op => Formula.strength op
  | negate => 5
  | openParen => 0

/-- Negation is subtraction from a zero that was put before its operand. -/
def operator? : Pending → Option Operator
  | binary op => some op
  | negate => some .sub
  | openParen => none

/-- Whether it must be finished before `op` starts. -/
def yieldsTo (op : Operator) (p : Pending) : Bool :=
  Formula.strength op < p.strength || (p.strength == Formula.strength op && op != .pow)

end Pending

/-- What may come next. -/
inductive Place where
  | beforeOperand
  /-- Behind an operand or its modifiers; `conditions` says whether conditions may follow. -/
  | afterOperand (conditions : Bool)
  | afterParen
  deriving DecidableEq, Repr

/-- A text read up to some point. The output is in reverse. -/
structure Progress where
  output : List PlacedToken
  pending : List (Pending × Text.Span)
  place : Place
  deriving Repr

namespace Progress

def start : Progress := ⟨[], [], .beforeOperand⟩

def emit (p : Progress) (token : Token) (span : Text.Span) : Progress :=
  { p with output := ⟨token, span⟩ :: p.output }

/-- Moves what yields to `op` from the stack to the output. -/
def release (op : Operator) : List (Pending × Text.Span) → List PlacedToken →
    List (Pending × Text.Span) × List PlacedToken
  | [], output => ([], output)
  | (p, span) :: rest, output =>
    match p.yieldsTo op, p.operator? with
    | true, some o => release op rest (⟨.operator o, span⟩ :: output)
    | _, _ => ((p, span) :: rest, output)

/-- Moves everything above the last open parenthesis to the output and drops the parenthesis. There is
no result without one. -/
def close? : List (Pending × Text.Span) → List PlacedToken →
    Option (List (Pending × Text.Span) × List PlacedToken)
  | [], _ => none
  | (p, span) :: rest, output =>
    match p.operator? with
    | some o => close? rest (⟨.operator o, span⟩ :: output)
    | none => some (rest, output)

/-- Moves everything to the output, or gives the place of the last parenthesis left open. -/
def finish : List (Pending × Text.Span) → List PlacedToken → Except Text.Span (List PlacedToken)
  | [], output => .ok output
  | (p, span) :: rest, output =>
    match p.operator? with
    | some o => finish rest (⟨.operator o, span⟩ :: output)
    | none => .error span

/-- Adds a condition to the token just read, which then reaches to the end of the condition. -/
def addCondition (c : Condition) (stop : Nat) : List PlacedToken → List PlacedToken
  | [] => []
  | last :: rest =>
    let span : Text.Span := ⟨last.span.start, stop⟩
    match last.token with
    | .dice n faces cs => ⟨.dice n faces (cs ++ [c]), span⟩ :: rest
    | .modifier m cs => ⟨.modifier m (cs ++ [c]), span⟩ :: rest
    | _ => last :: rest

end Progress

def operandExpected : List String := ["<number>", "<dice>", "'('"]
def operatorExpected : List String := ["<operator>", "')'"]
def conditionExpected : List String := ["<dice>", "<modifier>"]

open Progress in
/-- Reads one lexeme. -/
def step (source : String) (p : Progress) (next : Lexeme.Placed) : Except NotationError Progress :=
  let span := next.span
  let unexpected (expected : List String) : Except NotationError Progress :=
    .error (.unexpected (.of source span) expected)
  let operand (token : Token) (conditions : Bool) : Except NotationError Progress :=
    if p.place = .beforeOperand then
      .ok { p.emit token span with place := .afterOperand conditions }
    else unexpected operatorExpected
  match next.lexeme with
  | .invalid => .error (.invalid (.of source span))
  | .number value => operand (.number value) false
  | .dice n faces => operand (.dice n faces []) true
  | .percentile n digits => operand (.percentile n digits) false
  | .stunt => operand .stunt false
  | .modifier m =>
    match p.place with
    | .afterOperand _ =>
      .ok { p.emit (.modifier m []) span with place := .afterOperand m.takesConditions }
    | _ => .error (.danglingModifier (.of source span))
  | .condition c =>
    match p.place with
    | .afterOperand true => .ok { p with output := addCondition c span.stop p.output }
    | _ => unexpected conditionExpected
  | .openParen =>
    if p.place = .beforeOperand then .ok { p with pending := (.openParen, span) :: p.pending }
    else unexpected operatorExpected
  | .closeParen =>
    if p.place = .beforeOperand then unexpected operandExpected
    else
      match close? p.pending p.output with
      | some (pending, output) => .ok ⟨output, pending, .afterParen⟩
      | none => .error (.unbalanced (.of source span))
  | .operator op =>
    if p.place = .beforeOperand then
      match op with
      | .sub =>
        .ok { p.emit (.number .zero) ⟨span.start, span.start⟩ with
          pending := (.negate, span) :: p.pending }
      | .add => .ok p
      | _ => unexpected operandExpected
    else
      let (pending, output) := release op p.pending p.output
      .ok ⟨output, (.binary op, span) :: pending, .beforeOperand⟩

/-- Reads the lexemes from the left and then finishes what still waits. -/
def ofLexemes (source : String) (lexemes : List Lexeme.Placed) : Except NotationError Formula := do
  let p ← lexemes.foldlM (step source) Progress.start
  if p.place = .beforeOperand then
    let stop := Text.byteLength source.toList
    throw (.unexpected (.of source ⟨stop, stop⟩) operandExpected)
  match Progress.finish p.pending p.output with
  | .ok output => return ⟨source, output.reverse⟩
  | .error span => throw (.unbalanced (.of source span))

/-- Reads dice notation. -/
def read : FormulaReader := fun source =>
  if Text.trimChars source.toList = [] then .error .empty
  else ofLexemes source (Lexeme.scan source)

end Formula
end Tabletop
