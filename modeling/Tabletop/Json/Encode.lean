import Tabletop.Number.Basic

/-! JSON text. Nothing is escaped that need not be. -/
namespace Tabletop.Json

def hexDigit (n : Nat) : Char := (Nat.toDigits 16 n).getLastD '0'

/-- A character of a string. Control characters have a short escape or a code. -/
def escape (c : Char) : List Char :=
  if c = '"' ∨ c = '\\' then ['\\', c]
  else if c = '\x08' then ['\\', 'b']
  else if c = '\x0c' then ['\\', 'f']
  else if c = '\n' then ['\\', 'n']
  else if c = '\r' then ['\\', 'r']
  else if c = '\t' then ['\\', 't']
  else if c.toNat < 0x20 then ['\\', 'u', '0', '0', hexDigit (c.toNat / 16), hexDigit (c.toNat % 16)]
  else [c]

def stringText (s : String) : String :=
  String.ofList ('"' :: s.toList.flatMap escape ++ ['"'])

def numberText : Number → String
  | .whole n => toString n.toInt
  | .float x => FloatLayout.record.write x

/-- An object with its fields in the given order. The values are JSON text already. -/
def objectText (fields : List (String × String)) : String :=
  "\x7b" ++ ",".intercalate (fields.map fun (k, v) => stringText k ++ ":" ++ v) ++ "\x7d"

end Tabletop.Json
