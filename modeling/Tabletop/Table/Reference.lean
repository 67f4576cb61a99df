import Tabletop.Error
import Tabletop.Text.Case
import Tabletop.Text.Digits
import Tabletop.Text.Split

/-! References to tables, such as `3[[Loot]]^weapons|Name`. -/
namespace Tabletop

/-- How many picks from which block, and from which column if not from whole rows. -/
structure Reference where
  count : Nat := 1
  path : String
  block : String
  header : Option String := none
  deriving DecidableEq, Repr

namespace Reference

/-- The largest number of picks that can be written. -/
def maxPicks : Nat := UInt64.size - 1

/-- The picks written before the reference: one unless said otherwise, and never none. -/
def picks? (digits : List Char) : Option Nat :=
  if digits = [] then some 1 else (Text.readNatUpTo? maxPicks digits).filter (0 < ·)

/-- Reads a reference from characters without blanks around them. The block is in lower case and one
word; an empty header is none. -/
def ofChars? (cs : List Char) : Option Reference := do
  let count ← picks? (cs.takeWhile Text.isDigit)
  let rest ← Text.stripStart? ['[', '['] (cs.dropWhile Text.isDigit)
  let (path, rest) ← Text.splitFirst? [']', ']'] rest
  let rest ← Text.stripStart? ['^'] rest
  let (block, header) := match Text.splitFirst? ['|'] rest with
    | some (block, header) => (block, Text.trimChars header)
    | none => (rest, [])
  let path := Text.trimChars path
  let block := Text.lowerAfter [] (Text.trimChars block)
  if path = [] ∨ block = [] ∨ block.any Text.isBlank then none
  return {
    count
    path := .ofList path
    block := .ofList block
    header := if header = [] then none else some (.ofList header) }

def read (s : String) : Except NotationError Reference :=
  match ofChars? (Text.trimChars s.toList) with
  | some r => .ok r
  | none => .error (.badReference s)

def text (r : Reference) : String :=
  (if r.count = 1 then "" else toString r.count) ++ "[[" ++ r.path ++ "]]^" ++ r.block ++
    (match r.header with
    | some header => "|" ++ header
    | none => "")

end Reference
end Tabletop
