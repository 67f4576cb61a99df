import Tabletop.Dice.Faces
import Tabletop.Dice.Modifier
import Tabletop.Notation.Pattern
import Tabletop.Text.Slice

/-! The lexemes of dice notation: their patterns and what the text of each means. A text is cut into the
longest lexemes from the left. -/
namespace Tabletop

/-- Arithmetic between two operands. -/
inductive Operator where
  | add
  | sub
  | mul
  | div
  | pow
  deriving DecidableEq, Repr

def Operator.text : Operator → String
  | add => "+"
  | sub => "-"
  | mul => "*"
  | div => "/"
  | pow => "^"

inductive Lexeme where
  | number (value : Number)
  | dice (count : Nat) (faces : Faces)
  | percentile (count : Nat) (digits : List Int64)
  | stunt
  | modifier (m : WrittenModifier)
  | condition (c : Condition)
  | openParen
  | closeParen
  | operator (op : Operator)
  | invalid
  deriving Repr

namespace Lexeme

/-- What messages call a lexeme of this kind. -/
def name : Lexeme → String
  | number _ => "<number>"
  | dice .. => "<dice>"
  | percentile .. => "<percentile>"
  | stunt => "<stunt>"
  | modifier _ => "<modifier>"
  | condition _ => "<conditional>"
  | openParen => "'('"
  | closeParen => "')'"
  | operator op => "'" ++ op.text ++ "'"
  | invalid => "<error>"

/-- The largest count of dice that can be written. -/
def maxDice : Nat := UInt64.size - 1

/-- How many dice are written before the `d`: one unless said otherwise, and never none. -/
def diceCount? (cs : List Char) : Option Nat :=
  if cs = [] then some 1 else (Text.readNatUpTo? maxDice cs).filter (0 < ·)

private def isD (c : Char) : Bool := c == 'd' || c == 'D'

private def withoutSpaces (cs : List Char) : List Char := cs.filter (· ≠ ' ')

/-- The faces written behind the `d`. -/
def facesOf? : List Char → Option Faces
  | ['%'] => some .percent
  | ['F'] => some .fudgeDie
  | '[' :: range =>
    let low := range.takeWhile (· ≠ ',')
    let high := ((range.dropWhile (· ≠ ',')).drop 1).dropLast
    match Text.readWhole? (withoutSpaces low), Text.readWhole? (withoutSpaces high) with
    | some a, some b => some (.between a b)
    | _, _ => none
  | sides => ((Text.readWhole? sides).filter (· ≠ 0)).map .sided

def readDice? (cs : List Char) : Option Lexeme := do
  let count ← diceCount? (cs.takeWhile (!isD ·))
  let faces ← facesOf? ((cs.dropWhile (!isD ·)).drop 1)
  return dice count faces

/-- Behind `d%` each digit is a die of its own. -/
def readPercentile? (cs : List Char) : Option Lexeme := do
  let count ← diceCount? (cs.takeWhile (!isD ·))
  let sides := (cs.dropWhile (!isD ·)).drop 2
  return percentile count (sides.map fun c => Int64.ofNat (Text.digitValue c))

/-- The count behind a keep or drop, one if there is none. -/
def keepCount? (cs : List Char) : Option Nat :=
  if cs = [] then some 1 else Text.readNatUpTo? WrittenModifier.maxCount cs

/-- The repeats behind an explosion or a reroll. -/
def repeats? (byDefault : Repeats) : List Char → Option Repeats
  | [] => some byDefault
  | ['i'] => some .unbounded
  | cs => (Text.readNatUpTo? WrittenModifier.maxCount cs).map .times

/-- Reads a comparison and its bound. A sign of two characters wins, so `=-3` is the sign `=-`. -/
def readCondition? (cs : List Char) : Option Lexeme := do
  let long := Comparison.ofText? (String.ofList (cs.take 2))
  let length := if cs.length > 2 && long.isSome then 2 else 1
  let comparison ← Comparison.ofText? (String.ofList (cs.take length))
  let bound := cs.drop length
  match Text.readWhole? bound with
  | some n => return condition ⟨comparison, .whole n⟩
  | none => return condition ⟨comparison, .float (← Text.readFloat? bound)⟩

end Lexeme

/-- One kind of lexeme. `read?` is given a matching text and refuses counts out of range. -/
structure LexemeRule where
  pattern : Pattern
  read? : List Char → Option Lexeme

namespace LexemeRule
open Pattern

private def d : Pattern := either (char 'd') (char 'D')

private def rangeEnd : Pattern :=
  sequence [many (char ' '), optional (char '-'), digits, many (char ' ')]

/-- A range of faces, such as `2d[-1, 3]`. -/
def rangeDice : Pattern :=
  sequence [many digit, d, char '[', rangeEnd, char ',', rangeEnd, char ']']

def plainDice : Pattern := sequence [many digit, d, anyOf [digits, char '%', char 'F']]

/-- The start of a range of faces, at which nothing else may be read. -/
def rangeOpening : Pattern := sequence [many digit, d, char '[']

def comparison : Pattern :=
  anyOf (["=", "!=", "=!", "<", "<=", ">", ">=", "-=", "=-"].map word)

def conditional : Pattern :=
  sequence [comparison, optional (char '-'), digits, optional (seq (char '.') digits)]

private def keep (name : String) (written : Nat → WrittenModifier) : LexemeRule where
  pattern := seq (word name) (many digit)
  read? cs := (Lexeme.keepCount? (cs.drop name.length)).map (.modifier ∘ written)

private def repeating (name : String) (byDefault : Repeats) (written : Repeats → WrittenModifier) :
    LexemeRule where
  pattern := seq (word name) (optional (either (char 'i') digits))
  read? cs := (Lexeme.repeats? byDefault (cs.drop name.length)).map (.modifier ∘ written)

private def symbol (name : String) (lexeme : Lexeme) : LexemeRule where
  pattern := word name
  read? _ := some lexeme

def all : List LexemeRule :=
  [ { pattern := digits, read? := fun cs => (Text.readWhole? cs).map (.number ∘ .whole) },
    { pattern := sequence [digits, char '.', digits],
      read? := fun cs => (Text.readFloat? cs).map (.number ∘ .float) },
    { pattern := either plainDice rangeDice, read? := Lexeme.readDice? },
    { pattern := sequence [many digit, d, char '%', digits], read? := Lexeme.readPercentile? },
    { pattern := sequence [optional (char '1'), d, char 'S'], read? := fun _ => some .stunt },
    keep "kh" .keepHigh, keep "kl" .keepLow, keep "dh" .dropHigh, keep "dl" .dropLow,
    repeating "!!" (.times 1) .explodeCombine, repeating "!" .unbounded .explode,
    repeating "r" (.times 1) .reroll,
    { pattern := conditional, read? := Lexeme.readCondition? },
    symbol "(" .openParen, symbol ")" .closeParen,
    symbol "+" (.operator .add), symbol "-" (.operator .sub), symbol "*" (.operator .mul),
    symbol "/" (.operator .div), symbol "^" (.operator .pow) ]

/-- The rule with the longest match at the start of a text, and the length of that match. -/
def longest? (cs : List Char) : Option (LexemeRule × Nat) :=
  longestOf cs all
where
  longestOf (cs : List Char) : List LexemeRule → Option (LexemeRule × Nat)
    | [] => none
    | rule :: rules =>
      match rule.pattern.longest? cs, longestOf cs rules with
      | some n, some (other, m) => if n < m then some (other, m) else some (rule, n)
      | some n, none => some (rule, n)
      | none, found => found

end LexemeRule

namespace Lexeme

/-- A lexeme and where it stands. -/
structure Placed where
  lexeme : Lexeme
  span : Text.Span
  deriving Repr

/-- The blanks between lexemes. -/
def isGap (c : Char) : Bool := c == ' ' || c == '\t' || c == '\r' || c == '\n'

/-- How far an unfinished range or comparison reaches. A minus sign belongs to it only with a digit
behind. -/
private def unfinished (p : Pattern) (cs : List Char) : Nat :=
  ((cs.take (p.viable cs)).reverse.dropWhile (· == '-')).length

/-- The lexeme at the start of a text and how many characters it takes. An opened range that goes wrong
is invalid as a whole, a lone comparison sign likewise, and any other character by itself. -/
def first (cs : List Char) : Lexeme × Nat :=
  let matched := LexemeRule.longest? cs
  if (LexemeRule.rangeOpening.longest? cs).isSome && (LexemeRule.rangeDice.longest? cs).isNone then
    (invalid, unfinished LexemeRule.rangeDice cs)
  else
    match matched with
    | some (rule, n) => ((rule.read? (cs.take n)).getD invalid, n)
    | none => (invalid, max 1 (unfinished LexemeRule.conditional cs))

/-- The lexemes of a text that starts at byte `pos`, once `skip` characters are passed over. -/
def scanFrom : (skip pos : Nat) → List Char → List Placed
  | _, _, [] => []
  | skip + 1, pos, c :: cs => scanFrom skip (pos + c.utf8Size) cs
  | 0, pos, c :: cs =>
    if isGap c then scanFrom 0 (pos + c.utf8Size) cs
    else
      let (lexeme, n) := first (c :: cs)
      ⟨lexeme, ⟨pos, pos + Text.byteLength ((c :: cs).take n)⟩⟩ ::
        scanFrom (n - 1) (pos + c.utf8Size) cs

def scan (s : String) : List Placed := scanFrom 0 0 s.toList

end Lexeme
end Tabletop
