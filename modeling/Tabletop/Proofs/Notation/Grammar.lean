import Tabletop.Notation.Formula

/-! The grammar of dice notation and the postfix form of what it derives:

    sum     = product (('+' | '-') product)*
    product = unary (('*' | '/') unary)*
    unary   = ('+' | '-') unary | power
    power   = primary ['^' unary]
    primary = '(' sum ')' | operand

An operand is a number, dice with conditions, percentile dice or a stunt, with modifiers behind it. Only
explosions and rerolls may have conditions of their own. -/
namespace Tabletop.Grammar

/-- A condition and where it stands. -/
structure PlacedCondition where
  condition : Condition
  span : Text.Span

def PlacedCondition.lexeme (c : PlacedCondition) : Lexeme.Placed := ⟨.condition c.condition, c.span⟩

/-- From the start of a span to the end of the last condition behind it. -/
def reach (span : Text.Span) (cs : List PlacedCondition) : Text.Span :=
  cs.foldl (fun s c => ⟨s.start, c.span.stop⟩) span

/-- A modifier with the conditions behind it. -/
structure Suffix where
  modifier : WrittenModifier
  span : Text.Span
  conditions : List PlacedCondition
  allowed : conditions = [] ∨ modifier.takesConditions

namespace Suffix

def lexemes (s : Suffix) : List Lexeme.Placed :=
  ⟨.modifier s.modifier, s.span⟩ :: s.conditions.map PlacedCondition.lexeme

def token (s : Suffix) : PlacedToken :=
  ⟨.modifier s.modifier (s.conditions.map (·.condition)), reach s.span s.conditions⟩

end Suffix

/-- What an operand starts with. -/
inductive Head where
  | number (value : Number)
  | dice (count : Nat) (faces : Faces) (conditions : List PlacedCondition)
  | percentile (count : Nat) (digits : List Int64)
  | stunt

namespace Head

def lexeme : Head → Lexeme
  | number value => .number value
  | dice count faces _ => .dice count faces
  | percentile count digits => .percentile count digits
  | stunt => .stunt

def conditions : Head → List PlacedCondition
  | dice _ _ cs => cs
  | _ => []

def token : Head → Token
  | number value => .number value
  | dice count faces cs => .dice count faces (cs.map (·.condition))
  | percentile count digits => .percentile count digits
  | stunt => .stunt

end Head

structure Operand where
  head : Head
  span : Text.Span
  suffixes : List Suffix

namespace Operand

def lexemes (o : Operand) : List Lexeme.Placed :=
  ⟨o.head.lexeme, o.span⟩ :: o.head.conditions.map PlacedCondition.lexeme ++ o.suffixes.flatMap Suffix.lexemes

/-- The operand and then its modifiers in the order written, each reaching to its last condition. -/
def tokens (o : Operand) : List PlacedToken :=
  ⟨o.head.token, reach o.span o.head.conditions⟩ :: o.suffixes.map Suffix.token

end Operand

/-- What is written, as the rules of the grammar put it together. -/
inductive Phrase where
  | operand (o : Operand)
  | parens (opened closed : Text.Span) (inner : Phrase)
  | plus (sign : Text.Span) (p : Phrase)
  | negate (sign : Text.Span) (p : Phrase)
  | binary (op : Operator) (sign : Text.Span) (left right : Phrase)

namespace Phrase

def lexemes : Phrase → List Lexeme.Placed
  | operand o => o.lexemes
  | parens opened closed p => ⟨.openParen, opened⟩ :: p.lexemes ++ [⟨.closeParen, closed⟩]
  | plus sign p => ⟨.operator .add, sign⟩ :: p.lexemes
  | negate sign p => ⟨.operator .sub, sign⟩ :: p.lexemes
  | binary op sign l r => l.lexemes ++ ⟨.operator op, sign⟩ :: r.lexemes

/-- The zero that negation subtracts from. It stands for no text. -/
def zeroAt (sign : Text.Span) : PlacedToken := ⟨.number .zero, ⟨sign.start, sign.start⟩⟩

/-- The phrase in postfix order: an operator follows its operands, and negation is subtraction from a
zero in front. -/
def tokens : Phrase → List PlacedToken
  | operand o => o.tokens
  | parens _ _ p => p.tokens
  | plus _ p => p.tokens
  | negate sign p => zeroAt sign :: p.tokens ++ [⟨.operator .sub, sign⟩]
  | binary op sign l r => l.tokens ++ r.tokens ++ [⟨.operator op, sign⟩]

end Phrase

/-- The left sides of the grammar's rules. -/
inductive Category where
  | primary
  | power
  | unary
  | product
  | sum
  deriving DecidableEq

/-- The rules of the grammar. A repetition groups from the left. -/
inductive Derives : Category → Phrase → Prop where
  | operand (o : Operand) : Derives .primary (.operand o)
  | parens (opened closed : Text.Span) {p : Phrase} (inner : Derives .sum p) :
      Derives .primary (.parens opened closed p)
  | primary {p : Phrase} (h : Derives .primary p) : Derives .power p
  | raise (sign : Text.Span) {l r : Phrase} (left : Derives .primary l) (right : Derives .unary r) :
      Derives .power (.binary .pow sign l r)
  | power {p : Phrase} (h : Derives .power p) : Derives .unary p
  | plus (sign : Text.Span) {p : Phrase} (h : Derives .unary p) : Derives .unary (.plus sign p)
  | negate (sign : Text.Span) {p : Phrase} (h : Derives .unary p) : Derives .unary (.negate sign p)
  | unary {p : Phrase} (h : Derives .unary p) : Derives .product p
  | times (op : Operator) (sign : Text.Span) {l r : Phrase} (hop : op = .mul ∨ op = .div)
      (left : Derives .product l) (right : Derives .unary r) : Derives .product (.binary op sign l r)
  | product {p : Phrase} (h : Derives .product p) : Derives .sum p
  | add (op : Operator) (sign : Text.Span) {l r : Phrase} (hop : op = .add ∨ op = .sub)
      (left : Derives .sum l) (right : Derives .product r) : Derives .sum (.binary op sign l r)

namespace Category

/-- How far a category stands from the operands. A phrase of one is a phrase of all further out. -/
def rank : Category → Nat
  | primary => 0
  | power => 1
  | unary => 2
  | product => 3
  | sum => 4

/-- What stands to the left of an operator. -/
def leftOf : Operator → Category
  | .add | .sub => sum
  | .mul | .div => product
  | .pow => primary

/-- What stands to the right of an operator. -/
def rightOf : Operator → Category
  | .add | .sub => product
  | .mul | .div | .pow => unary

/-- What an operator and its operands are together. -/
def resultOf : Operator → Category
  | .add | .sub => sum
  | .mul | .div => product
  | .pow => power

end Category

namespace Derives

/-- One chain of rules leads from the operands outwards. -/
theorem weaken {p : Phrase} : ∀ {c d : Category}, Derives c p → c.rank ≤ d.rank → Derives d p
  | .primary, .primary, h, _ | .power, .power, h, _ | .unary, .unary, h, _
  | .product, .product, h, _ | .sum, .sum, h, _ => h
  | .primary, .power, h, _ => .primary h
  | .primary, .unary, h, _ => .power (.primary h)
  | .primary, .product, h, _ => .unary (.power (.primary h))
  | .primary, .sum, h, _ => .product (.unary (.power (.primary h)))
  | .power, .unary, h, _ => .power h
  | .power, .product, h, _ => .unary (.power h)
  | .power, .sum, h, _ => .product (.unary (.power h))
  | .unary, .product, h, _ => .unary h
  | .unary, .sum, h, _ => .product (.unary h)
  | .product, .sum, h, _ => .product h

theorem binary (op : Operator) (sign : Text.Span) {l r : Phrase} (left : Derives (.leftOf op) l)
    (right : Derives (.rightOf op) r) : Derives (.resultOf op) (.binary op sign l r) := by
  cases op with
  | add => exact .add _ _ (.inl rfl) left right
  | sub => exact .add _ _ (.inr rfl) left right
  | mul => exact .times _ _ (.inl rfl) left right
  | div => exact .times _ _ (.inr rfl) left right
  | pow => exact .raise _ left right

end Derives
end Tabletop.Grammar
