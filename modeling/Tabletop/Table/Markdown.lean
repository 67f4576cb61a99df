import Tabletop.Text.Blank
import Tabletop.Text.Split

/-! Tables in markdown: a line of headers, a separator line, and lines of cells. -/
namespace Tabletop

/-- A markdown table. Rows and columns hold only the cells that are not empty. -/
structure Markdown where
  headers : List String
  rows : List (List String)
  columns : List (List String)
  deriving DecidableEq, Repr

namespace Markdown

/-- Cuts a line at its bars. A bar behind a backslash is part of its cell, as is the backslash.
`escaped` says that a backslash came just before. -/
def cutCells : (escaped : Bool) → List Char → List (List Char)
  | _, [] => [[]]
  | escaped, c :: cs =>
    if c = '|' ∧ !escaped then [] :: cutCells false cs
    else
      match cutCells (c == '\\') cs with
      | [] => [[c]]
      | cell :: cells => (c :: cell) :: cells

/-- The cells of a line, without blanks around them. -/
def splitCells (line : List Char) : List (List Char) := (cutCells false line).map Text.trimChars

/-- Drops a bar at each end of a line, though not one behind a backslash. -/
def stripBars (line : List Char) : List Char :=
  let line := Text.trimChars line
  let line := (Text.stripStart? ['|'] line).getD line
  match line.reverse with
  | '|' :: inner => if inner.head? = some '\\' then line else inner.reverse
  | _ => line

def lineCells (line : List Char) : List String := (splitCells (stripBars line)).map String.ofList

/-- Adds the cells of a row to the columns they stand under. -/
def extendColumns : List (List String) → List String → List (List String)
  | column :: columns, cell :: cells =>
    (if cell = "" then column else column ++ [cell]) :: extendColumns columns cells
  | columns, _ => columns

/-- A header, or the number of its column if it is empty. -/
def nameHeader (header : String) (index : Nat) : String :=
  if header = "" then toString index else header

def ofText (content : String) : Markdown :=
  let lines := Text.lines content.toList
  let headers := match lines with
    | [] => []
    | first :: _ => (lineCells first).zipIdx.map fun (h, i) => nameHeader h i
  let body := (lines.drop 2).map lineCells
  { headers
    rows := (body.map fun cells => cells.filter (· ≠ "")).filter (· ≠ [])
    columns := body.foldl extendColumns (headers.map fun _ => []) }

/-- Each row as one text. -/
def rowTexts (t : Markdown) : List String := t.rows.map fun cells => " | ".intercalate cells

/-- The column under the first header of that name. -/
def column? (t : Markdown) (header : String) : Option (List String) :=
  (t.headers.idxOf? header).bind fun i => t.columns[i]?

/-- The formula in the first of two headers, when that has the form `dice: formula`. -/
def lookupFormula? (t : Markdown) : Option String :=
  match t.headers with
  | [first, _] => do
    let (_, rest) ← Text.splitFirst? "dice:".toList first.toList
    let formula := Text.trimChars ((Text.splitOn ':' rest).getLastD [])
    if formula = [] then none else some (.ofList formula)
  | _ => none

end Markdown
end Tabletop
