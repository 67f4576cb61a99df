import Tabletop.Engine

/-! A conversation: each line is a formula, answered with its value and its trace, or with an error. -/
namespace Tabletop.Console

def prompt : String := "> "

/-- What a line is answered with. -/
structure Answer where
  output : String := ""
  error : String := ""
  deriving DecidableEq, Repr

variable {σ : Type} [RandomSource σ]

/-- Rolls the formula of a line. A blank line has no answer. -/
def answer (g : Engine) (line : String) : StateM σ Answer := do
  let text := Text.trim line
  if text = "" then return {}
  match ← g.roll text with
  | .ok roller => return { output := roller.rendered ++ "\n" ++ roller.trace ++ "\n" }
  | .error why => return { error := "Error: " ++ why.message ++ "\n" }

/-- A whole conversation, with a prompt before every line. -/
def converse (g : Engine) : List String → StateM σ Answer
  | [] => return { output := prompt }
  | line :: lines => do
    let a ← answer g line
    let rest ← converse g lines
    return { output := prompt ++ a.output ++ rest.output, error := a.error ++ rest.error }

end Tabletop.Console
