/-! Nested traces laid out over several lines. -/
namespace Tabletop.Text

/-- A line break with one tab for each open parenthesis. -/
def lineBreak (depth : Nat) : List Char := '\n' :: List.replicate depth '\t'

/-- Lays out a text inside `depth` open parentheses: a new line follows each opening parenthesis, each
semicolon, which is shown as a comma, and each pair of bars, and precedes each closing parenthesis. -/
def outlineFrom : (depth : Nat) → List Char → List Char
  | _, [] => []
  | depth, '(' :: cs => '(' :: lineBreak (depth + 1) ++ outlineFrom (depth + 1) cs
  | depth, ')' :: cs => lineBreak (depth - 1) ++ ')' :: outlineFrom (depth - 1) cs
  | depth, ';' :: cs => ',' :: lineBreak depth ++ outlineFrom depth cs
  | depth, '|' :: '|' :: cs => '|' :: '|' :: lineBreak depth ++ outlineFrom depth cs
  | depth, c :: cs => c :: outlineFrom depth cs

def outline (s : String) : String := String.ofList (outlineFrom 0 s.toList)

end Tabletop.Text
