import Tabletop.Dice.Modifier
import Tabletop.Notation.Lexeme
import Tabletop.Text.Quoted

/-! Why a formula cannot be read or rolled, and what is worth telling about a roll that went on. -/
namespace Tabletop

/-- A span of a text together with what stands there. -/
structure Excerpt where
  span : Text.Span
  text : String
  deriving DecidableEq, Repr

def Excerpt.of (source : String) (span : Text.Span) : Excerpt := ⟨span, Text.excerpt source span⟩

/-- What makes a list of tokens no postfix formula. -/
inductive StreamFault where
  | leadingModifier
  | missingOperands (op : Operator)
  | needsTwoOperands (op : Operator)
  | leftoverOperands
  | unknownGroup
  /-- A reason given by the maker of the tokens. -/
  | other (reason : String)
  deriving DecidableEq, Repr

def StreamFault.message : StreamFault → String
  | leadingModifier => "modifier before any dice"
  | missingOperands op => op.text ++ " is missing operands"
  | needsTwoOperands op => op.text ++ " needs two operands"
  | leftoverOperands => "operands left over"
  | unknownGroup => "unknown group"
  | other reason => reason

/-- Why a text is no formula. -/
inductive NotationError where
  | unexpected (found : Excerpt) (expected : List String)
  | invalid (found : Excerpt)
  | danglingModifier (found : Excerpt)
  | unbalanced (found : Excerpt)
  | empty
  | malformed (fault : StreamFault)
  | badReference (text : String)
  deriving DecidableEq, Repr

/-- A list of alternatives in prose. -/
def alternatives : List String → String
  | [a, b] => a ++ " or " ++ b
  | names =>
    match names.getLast? with
    | none => ""
    | some last =>
      if names.length = 1 then last
      else ", ".intercalate names.dropLast ++ ", or " ++ last

namespace NotationError

private def at_ (found : Excerpt) : String :=
  "(at position " ++ toString found.span.start ++ "): "

def message : NotationError → String
  | unexpected found expected =>
    at_ found ++ "unexpected token; found " ++ Text.quote found.text ++ ", expected " ++
      alternatives expected
  | invalid found => at_ found ++ Text.quote found.text ++ " is not valid dice notation"
  | danglingModifier found => at_ found ++ Text.quote found.text ++ " must follow a dice group"
  | unbalanced found => at_ found ++ "unbalanced parenthesis"
  | empty => "empty formula"
  | malformed fault => "malformed token stream: " ++ fault.message
  | badReference text => "could not parse table reference " ++ Text.quote text

end NotationError

/-- The three kinds of things that can be rolled. -/
inductive RollerKind where
  | expression
  | table
  | multi
  deriving DecidableEq, Repr

def RollerKind.name : RollerKind → String
  | expression => "expression"
  | table => "table"
  | multi => "multi"

/-- Why a roll, or the building of a roller, failed. -/
inductive RollError where
  | unreadable (why : NotationError)
  | missingReference (path block : String) (header : Option String)
  | recursionLimit (depth : Nat)
  | tooManyRolls
  | zeroDivision
  | notANumber (formula : String)
  | kindMismatch (expected found : RollerKind)
  deriving DecidableEq, Repr

namespace RollError

def malformed (fault : StreamFault) : RollError := unreadable (.malformed fault)

def message : RollError → String
  | unreadable why => why.message
  | missingReference path block none => "could not find block reference " ++ path ++ " > " ++ block
  | missingReference path block (some header) =>
    "could not find header " ++ Text.quote header ++ " in " ++ path ++ " > " ++ block
  | recursionLimit depth =>
    "nested formulas exceeded the recursion limit of " ++ toString depth
  | tooManyRolls => "too many dice rolled"
  | zeroDivision => "cannot divide by zero"
  | notANumber formula => Text.quote formula ++ " did not produce a number"
  | kindMismatch expected found =>
    "cannot apply a " ++ found.name ++ " result to a " ++ expected.name ++ " roller"

end RollError

/-- Something noticed in a roll that did not stop it. -/
inductive Advisory where
  | modifierMisuse (dice : String) (kind : ModifierKind)
  | rangeMiss (formula value : String)
  deriving DecidableEq, Repr

def Advisory.message : Advisory → String
  | modifierMisuse dice kind =>
    "modifiers are only allowed on dice rolls (" ++ kind.text ++ " on " ++ Text.quote dice ++ ")"
  | rangeMiss formula value =>
    "lookup value " ++ value ++ " matched no range of " ++ Text.quote formula

end Tabletop
