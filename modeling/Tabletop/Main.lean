import Tabletop.Console

/-! The console program. It reads formulas from standard input, a line each. The first argument names a
file with settings. -/

open Tabletop

/-- The settings in a file, or the defaults without one. -/
def loadSettings : List String → IO Settings
  | [] => return {}
  | path :: _ => do
    match Settings.ofJson? (← IO.FS.readFile path) with
    | some s => return s
    | none => throw (IO.userError "the settings cannot be read")

/-- The seed of the settings, or one from the system. -/
def startSource (s : Settings) : IO Generator := do
  match s.seed with
  | some seed => return ⟨seed.toUInt64⟩
  | none =>
    let bytes ← IO.getRandomBytes 8
    return ⟨bytes.foldl (fun n b => n * 256 + b.toUInt64) 0⟩

/-- Answers lines until the input ends. -/
partial def answerLines (g : Engine) (source : Generator) : IO Unit := do
  let out ← IO.getStdout
  out.putStr Console.prompt
  out.flush
  let line ← (← IO.getStdin).getLine
  if line.isEmpty then return
  let (a, source) := Console.answer g line source
  out.putStr a.output
  (← IO.getStderr).putStr a.error
  answerLines g source

def main (args : List String) : IO Unit := do
  let settings ← loadSettings args
  answerLines { settings } (← startSource settings)
