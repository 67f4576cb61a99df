import Tabletop.Table.Markdown
import Tabletop.Text.Digits

/-! The ranges of a lookup table: which row a number selects. -/
namespace Tabletop

/-- One row of a lookup table. Without a high end it is selected by one number only. -/
structure LookupRange where
  low : Int64
  high : Option Int64
  option : String
  deriving DecidableEq, Repr

namespace LookupRange

/-- Reads the first number of a cell, and the second if there is one. Anything may stand between
them. -/
def ofCell? (cell option : String) : Option LookupRange :=
  match (Text.splitBy (!Text.isDigit ·) cell.toList).filter (· ≠ []) with
  | [] => none
  | low :: rest => do
    let low ← Text.readWhole? low
    return { low, high := rest.head?.bind Text.readWhole?, option }

def contains (r : LookupRange) (value : Number) : Bool :=
  match r.high with
  | none => value == .whole r.low
  | some high =>
    let atLeast := (Number.whole r.low).compare? value
    let atMost := value.compare? (.whole high)
    (atLeast == some .lt || atLeast == some .eq) && (atMost == some .lt || atMost == some .eq)

end LookupRange

/-- The ranges of the rows that have two cells or more and a number in the first. -/
def Markdown.lookupRanges (t : Markdown) : List LookupRange :=
  t.rows.filterMap fun
    | cell :: option :: _ => LookupRange.ofCell? cell option
    | _ => none

end Tabletop
