import Tabletop.Dice.Cup
import Tabletop.Dice.Sequence

/-! What modifiers and success conditions do to a rolled pool. -/
namespace Tabletop

/-- Puts an element behind all it is not less than, from the right, into a list that is kept in
reverse. -/
def insertRanked {α : Type} (less : α → α → Bool) (x : α) : List α → List α
  | [] => [x]
  | y :: ys => if less x y then y :: insertRanked less x ys else x :: y :: ys

/-- Sorts by insertion from the left, so elements of equal rank keep their order. -/
def ranked {α : Type} (less : α → α → Bool) (xs : List α) : List α :=
  (xs.foldl (fun sorted x => insertRanked less x sorted) []).reverse

namespace DiceSequence
variable {σ : Type} [RandomSource σ]

/-- Leaves a die out of the total, with its value in sight. -/
def drop (d : Die) : Die := { d with usable := false }.tag .dropped

/-- Keeps the `n` dice ranked first and drops the others where they stand. -/
def keep (less : Number → Number → Bool) (n : Nat) (s : DiceSequence) : DiceSequence :=
  let dice := s.ids.filterMap fun id => (s.die? id).map fun d => (id, d.value)
  let order := ranked (fun a b => less a.2 b.2) dice
  (order.drop n).foldl (fun s (id, _) => s.modify id drop) s

/-- Dice that are dropped keep their values. -/
theorem value_keep (less : Number → Number → Bool) (n : Nat) (s : DiceSequence) (j : Nat) :
    ((s.keep less n).die? j).map (·.value) = (s.die? j).map (·.value) := by
  have hdrop (d : Die) : (drop d).value = d.value := Die.value_tag ..
  rw [keep]
  generalize (ranked _ _).drop n = dropped
  induction dropped generalizing s with
  | nil => rfl
  | cons x dropped ih =>
    rw [List.foldl_cons, ih, die?_modify]
    split
    · simp [hdrop, Function.comp_def]
    · rfl

def isLess (a b : Number) : Bool := a.compare? b == some .lt

def keepHigh : Nat → DiceSequence → DiceSequence := keep fun a b => isLess b a

def keepLow : Nat → DiceSequence → DiceSequence := keep isLess

/-- Whether the die of that number meets the conditions. -/
def meets (conditions : List Condition) (s : DiceSequence) (id : Nat) : Bool :=
  (s.die? id).any fun d => Condition.anyMet conditions d.value

/-- Rolls the given dice once more, one after the other. -/
def rerollAll (faces : Faces) (s : DiceSequence) (ids : List Nat) : RollM σ DiceSequence :=
  ids.foldlM (fun s id => do
    let value ← Cup.rollOne faces
    return s.modify id fun d => (d.tag .rerolled).setValue value) s

/-- Rolls dice again in passes. Each pass takes those of `active` that still meet the conditions, and the
passes end when there are none. -/
def rerollPasses (faces : Faces) (conditions : List Condition) :
    (passes : Nat) → (active : List Nat) → DiceSequence → RollM σ DiceSequence
  | 0, _, s => return s
  | passes + 1, active, s =>
    match active.filter (s.meets conditions) with
    | [] => return s
    | active => do rerollPasses faces conditions passes active (← rerollAll faces s active)

def reroll (faces : Faces) (times : Nat) (conditions : List Condition) (s : DiceSequence) :
    RollM σ DiceSequence :=
  rerollPasses faces conditions times s.ids s

/-- Rolls a new die behind a die that meets the conditions, then one behind the new die if that meets
them too, and so on. -/
def explodeDie (faces : Faces) (conditions : List Condition) :
    (times : Nat) → (id : Nat) → DiceSequence → RollM σ DiceSequence
  | 0, _, s => return s
  | times + 1, id, s =>
    if s.meets conditions id then do
      let value ← Cup.rollOne faces
      explodeDie faces conditions times s.size
        ((s.modify id (·.tag .exploded)).insertAfter id (.rolled value))
    else return s

/-- Explodes every die that is there at the start and meets the conditions. -/
def explode (faces : Faces) (times : Nat) (conditions : List Condition) (s : DiceSequence) :
    RollM σ DiceSequence :=
  (s.ids.filter (s.meets conditions)).foldlM
    (fun s id => explodeDie faces conditions times id s) s

/-- Adds new rolls to a die as long as the latest roll, at first the die's own, meets the conditions. -/
def combineDie (faces : Faces) (conditions : List Condition) (id : Nat) :
    (times : Nat) → (latest : Number) → DiceSequence → RollM σ DiceSequence
  | 0, _, s => return s
  | times + 1, latest, s =>
    if Condition.anyMet conditions latest then do
      let value ← Cup.rollOne faces
      combineDie faces conditions id times value
        (s.modify id fun d => (d.setValue (d.value.add value)).tag .exploded)
    else return s

/-- As `explode`, with the new rolls added to the die instead of standing behind it. -/
def explodeCombine (faces : Faces) (times : Nat) (conditions : List Condition) (s : DiceSequence) :
    RollM σ DiceSequence :=
  (s.ids.filter (s.meets conditions)).foldlM (fun s id =>
    match s.die? id with
    | some d => combineDie faces conditions id times d.value s
    | none => return s) s

/-- Turns a die into a success, a failure or nothing. Only the first `-=` condition names failures. -/
def scored (conditions : List Condition) (d : Die) : Die :=
  let failure := (conditions.find? (·.isNegate)).map (·.bound)
  if failure.any (· == d.value) then { d with value := .whole (-1) }.tag .failure
  else if Condition.anyMet conditions d.value then { d with value := .one }.tag .success
  else { d with usable := false }

/-- Turns a pool into a count of successes less failures. The rolled values stay in sight. -/
def score (conditions : List Condition) (s : DiceSequence) : DiceSequence :=
  s.ids.foldl (fun s id => s.modify id (scored conditions)) s

end DiceSequence

namespace Modifier
variable {σ : Type} [RandomSource σ]

/-- The modifier's conditions, or being equal to a face if it has none. -/
def conditionsOr (m : Modifier) (face : Int64) : List Condition :=
  if m.conditions.isEmpty then [.equalTo face] else m.conditions

def apply (faces : Faces) (m : Modifier) (s : DiceSequence) : RollM σ DiceSequence :=
  match m.kind with
  | .keepHigh => return s.keepHigh m.count
  | .keepLow => return s.keepLow m.count
  | .reroll => s.reroll faces m.count (m.conditionsOr faces.low)
  | .explode => s.explode faces m.count (m.conditionsOr faces.high)
  | .explodeCombine => s.explodeCombine faces m.count (m.conditionsOr faces.high)

end Modifier
end Tabletop
