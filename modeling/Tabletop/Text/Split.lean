/-! Cutting text at separators. -/
namespace Tabletop.Text

/-- The parts between the characters that match, in order: one more than there are matches. -/
def splitBy (p : Char → Bool) : List Char → List (List Char)
  | [] => [[]]
  | c :: cs =>
    if p c then [] :: splitBy p cs
    else
      match splitBy p cs with
      | [] => [[c]]
      | part :: parts => (c :: part) :: parts

/-- The parts between occurrences of one character. -/
def splitOn (c : Char) (cs : List Char) : List (List Char) := splitBy (· == c) cs

/-- What follows `start` at the front of a text. -/
def stripStart? : List Char → List Char → Option (List Char)
  | [], cs => some cs
  | _ :: _, [] => none
  | p :: ps, c :: cs => if p = c then stripStart? ps cs else none

/-- Cuts at the first occurrence of `mark`, giving what stands before and after it. -/
def splitFirst? (mark : List Char) : List Char → Option (List Char × List Char)
  | [] => (stripStart? mark []).map fun rest => ([], rest)
  | c :: cs =>
    match stripStart? mark (c :: cs) with
    | some rest => some ([], rest)
    | none => (splitFirst? mark cs).map fun (before, after) => (c :: before, after)

/-- A line without its end, which is a line feed or a carriage return and a line feed. -/
def dropReturn (line : List Char) : List Char :=
  if line.getLast? = some '\r' then line.dropLast else line

/-- Marks the lines that a line feed ends: all but the last part, which counts only if it is not
empty and keeps a carriage return. -/
def endLines : List (List Char) → List (List Char)
  | [] => []
  | [last] => if last.isEmpty then [] else [last]
  | line :: rest => dropReturn line :: endLines rest

/-- The lines of a text, without their ends. -/
def lines (cs : List Char) : List (List Char) := endLines (splitOn '\n' cs)

end Tabletop.Text
