import Tabletop.Text.Digits

/-! Patterns of characters, matched by derivatives: the derivative of a pattern by a character is the
pattern of what may follow that character. -/
namespace Tabletop

inductive Pattern where
  | never
  | nothing
  | digit
  | char (c : Char)
  | seq (p q : Pattern)
  | either (p q : Pattern)
  | many (p : Pattern)
  deriving DecidableEq, Repr

namespace Pattern

/-- Whether the empty text matches. -/
def nullable : Pattern → Bool
  | never | digit | char _ => false
  | nothing | many _ => true
  | seq p q => p.nullable && q.nullable
  | either p q => p.nullable || q.nullable

/-- `seq`, without parts that match nothing or only the empty text. -/
def thenMatch : Pattern → Pattern → Pattern
  | never, _ => never
  | _, never => never
  | nothing, q => q
  | p, q => seq p q

/-- `either`, without alternatives that match nothing. -/
def orMatch : Pattern → Pattern → Pattern
  | never, q => q
  | p, never => p
  | p, q => either p q

def derive (c : Char) : Pattern → Pattern
  | never | nothing => never
  | digit => if Text.isDigit c then nothing else never
  | char d => if c = d then nothing else never
  | seq p q =>
    let first := thenMatch (derive c p) q
    if p.nullable then orMatch first (derive c q) else first
  | either p q => orMatch (derive c p) (derive c q)
  | many p => thenMatch (derive c p) (many p)

/-- How many characters the longest matching start of a text has. -/
def longest? : Pattern → List Char → Option Nat
  | never, _ => none
  | p, [] => if p.nullable then some 0 else none
  | p, c :: cs =>
    match longest? (p.derive c) cs with
    | some n => some (n + 1)
    | none => if p.nullable then some 0 else none

/-- How many characters of a text could still be the start of a match. -/
def viable : Pattern → List Char → Nat
  | _, [] => 0
  | p, c :: cs => if p.derive c = never then 0 else viable (p.derive c) cs + 1

/-- The characters of a text, in order. -/
def word (s : String) : Pattern := s.toList.foldr (fun c p => seq (char c) p) nothing

def anyOf : List Pattern → Pattern
  | [] => never
  | [p] => p
  | p :: ps => either p (anyOf ps)

def sequence : List Pattern → Pattern
  | [] => nothing
  | [p] => p
  | p :: ps => seq p (sequence ps)

def optional (p : Pattern) : Pattern := either p nothing

def many1 (p : Pattern) : Pattern := seq p (many p)

def digits : Pattern := many1 digit

end Pattern
end Tabletop
