import Tabletop.Proofs.Dice.Ends
import Tabletop.Proofs.Expression.Calculation

/-! Token lists scanned for the height of the stack alone, and programs likewise. Where the heights of a program
go through to one number, only a division by zero can fail. -/
namespace Tabletop

/-- The height of a stack after an operator. To a lone operand it can be a sign only. -/
def Operator.height? (op : Operator) : (height : Nat) → Option Nat
  | 0 => none
  | 1 => if op = .add ∨ op = .sub then some 1 else none
  | h + 2 => some (h + 1)

/-- A token list up to some token: the height of the stack, and whether some operand is a group. -/
structure Scan where
  height : Nat
  grouped : Bool
  deriving DecidableEq, Repr

namespace Scan

def start : Scan := ⟨0, false⟩

def push (grouped : Bool) (s : Scan) : Scan := ⟨s.height + 1, grouped || s.grouped⟩

def modifier? (s : Scan) : Option Scan := if s.grouped then some s else none

def operator? (op : Operator) (s : Scan) : Option Scan := (op.height? s.height).map (⟨·, s.grouped⟩)

/-- Takes one token. A number that stands for no text is an operand but no group. -/
def step (s : Scan) (t : PlacedToken) : Option Scan :=
  match t.token with
  | .modifier .. => s.modifier?
  | .operator op => s.operator? op
  | .number _ => some (s.push (!t.span.isEmpty))
  | .dice .. | .percentile .. | .stunt => some (s.push true)

end Scan

/-- Every operator finds its operands, every modifier a group before it, and one operand is left. -/
def WellFormed (tokens : List PlacedToken) : Prop := (tokens.foldlM Scan.step .start).map Scan.height = some 1

example : WellFormed [⟨.number (.whole 1), ⟨1, 2⟩⟩, ⟨.operator .sub, ⟨0, 1⟩⟩] := rfl

namespace Instruction

def height? (h : Nat) : Instruction → Option Nat
  | group _ | literal _ => some (h + 1)
  | operator op => op.height? h

/-- The heights of a program, and that its groups are there, say how it can end. -/
theorem step_ended {gs : List PlacedGroup} {i : Instruction} (hi : ∀ k, i = .group k → k < gs.length)
    (stack : List Number) :
    Ended (step gs stack i) (fun rest => i.height? stack.length = some rest.length)
      (fun why => (i.height? stack.length).isSome → why = .zeroDivision) := by
  cases i with
  | literal n => rfl
  | group k =>
    have hlt := hi k rfl
    have hk : gs[k]? = some gs[k] := List.getElem?_eq_getElem hlt
    rw [step, hk]
    rfl
  | operator op =>
    rcases stack with _ | ⟨b, _ | ⟨a, stack⟩⟩
    · intro hsome
      cases hsome
    · cases op with
      | add | sub => rfl
      | mul | div | pow =>
        intro hsome
        cases hsome
    · cases h : op.apply a b with
      | ok v =>
        rw [step, h]
        rfl
      | error why =>
        rw [step, h]
        exact fun _ => (Calculation.apply_eq_error_iff.1 h).2.2

private theorem foldlM_step_ended {gs : List PlacedGroup} {program : List Instruction}
    (h : ∀ k, .group k ∈ program → k < gs.length) (stack : List Number) :
    Ended (program.foldlM (step gs) stack) (fun rest => program.foldlM height? stack.length = some rest.length)
      (fun why => (program.foldlM height? stack.length).isSome → why = .zeroDivision) := by
  induction program generalizing stack with
  | nil => rfl
  | cons i program ih =>
    have hi := step_ended (i := i) (fun k hk => h k (hk ▸ List.mem_cons_self)) stack
    rw [List.foldlM_cons, List.foldlM_cons]
    cases hs : step gs stack i with
    | ok rest =>
      rw [hs] at hi
      have hh : i.height? stack.length = some rest.length := hi
      rw [hh]
      exact ih (fun k hk => h k (List.mem_cons_of_mem i hk)) rest
    | error why =>
      rw [hs] at hi
      intro hsome
      apply hi
      cases hh : i.height? stack.length with
      | none => simp [hh] at hsome
      | some _ => rfl

theorem run_ended {gs : List PlacedGroup} {program : List Instruction}
    (h : ∀ k, .group k ∈ program → k < gs.length) :
    Ended (run gs program) (fun _ => program.foldlM height? 0 = some 1)
      (fun why => program.foldlM height? 0 = some 1 → why = .zeroDivision) := by
  have hrun := foldlM_step_ended h []
  rw [run]
  cases hs : program.foldlM (step gs) [] with
  | error why =>
    rw [hs] at hrun
    exact fun hone => hrun (by simp [hone])
  | ok stack =>
    rw [hs] at hrun
    have hheight : program.foldlM height? 0 = some stack.length := hrun
    rcases stack with _ | ⟨n, _ | ⟨m, stack⟩⟩
    · intro hone
      cases hheight.symm.trans hone
    · exact hheight
    · intro hone
      cases hheight.symm.trans hone

end Instruction

end Tabletop
