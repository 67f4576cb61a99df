import Tabletop.Dice.Group

/-! Computations in which every die is counted before it is drawn. All that is done to dice is of this
kind, so what is proved of counted computations by induction holds of every roll. -/
namespace Tabletop
variable {σ α β : Type} [RandomSource σ]

/-- A computation put together of counted draws. `bad` are the failures of its own, beside that at the
limit. -/
inductive RollM.Counted (bad : RollError → Prop) : {α : Type} → RollM σ α → Prop
  | pure {α : Type} (a : α) : Counted bad (pure a : RollM σ α)
  | throw {α : Type} {why : RollError} (h : bad why) : Counted bad (throw why : RollM σ α)
  | between (low high : Int64) : Counted bad (Cup.between low high)
  | roll (n : Nat) (faces : Faces) : Counted bad (Cup.roll n faces)
  | bind {α β : Type} {m : RollM σ α} {f : α → RollM σ β} (hm : Counted bad m) (hf : ∀ a, Counted bad (f a)) :
    Counted bad (m >>= f)

/-- The computation has no failures of its own. -/
abbrev RollM.Rolls (m : RollM σ α) : Prop := m.Counted fun _ => False

namespace RollM.Counted
variable {bad bad' : RollError → Prop} {m : RollM σ α} {f : α → RollM σ β}

theorem mono (h : m.Counted bad) (hbad : ∀ why, bad why → bad' why) : m.Counted bad' := by
  induction h with
  | pure a => exact .pure a
  | throw h => exact .throw (hbad _ h)
  | between low high => exact .between low high
  | roll n faces => exact .roll n faces
  | bind _ _ ihm ihf => exact .bind ihm ihf

theorem map (hm : m.Counted bad) (g : α → β) : (g <$> m).Counted bad := by
  rw [map_eq_pure_bind]
  exact .bind hm fun a => .pure (g a)

theorem lift (h : ∀ why, bad why) (r : Except RollError α) : (liftM r : RollM σ α).Counted bad := by
  cases r with
  | ok a => exact .pure a
  | error why => exact .throw (h why)

theorem foldlM {f : β → α → RollM σ β} (hf : ∀ b a, (f b a).Counted bad) (as : List α) (b : β) :
    (as.foldlM f b).Counted bad := by
  induction as generalizing b with
  | nil => exact .pure b
  | cons a as ih =>
    rw [List.foldlM_cons]
    exact .bind (hf b a) ih

theorem mapM {f : α → RollM σ β} (hf : ∀ a, (f a).Counted bad) (as : List α) : (as.mapM f).Counted bad := by
  induction as with
  | nil => exact .pure []
  | cons a as ih =>
    rw [List.mapM_cons]
    exact .bind (hf a) fun b => .bind ih fun bs => .pure (b :: bs)

end RollM.Counted

private theorem Cup.rollOne_rolls (faces : Faces) : (rollOne faces : RollM σ Number).Rolls :=
  .bind (.between _ _) fun _ => .pure _

namespace DiceSequence
variable (faces : Faces) (conditions : List Condition)

private theorem rerollAll_rolls (s : DiceSequence) (ids : List Nat) : (rerollAll faces s ids : RollM σ _).Rolls :=
  .foldlM (fun _ _ => .bind (Cup.rollOne_rolls faces) fun _ => .pure _) ids s

private theorem rerollPasses_rolls (passes : Nat) (active : List Nat) (s : DiceSequence) :
    (rerollPasses faces conditions passes active s : RollM σ _).Rolls := by
  induction passes generalizing active s with
  | zero => exact .pure s
  | succ passes ih =>
    rw [rerollPasses]
    split
    · exact .pure s
    · exact .bind (rerollAll_rolls faces s _) fun t => ih _ t

private theorem explodeDie_rolls (times id : Nat) (s : DiceSequence) :
    (explodeDie faces conditions times id s : RollM σ _).Rolls := by
  induction times generalizing id s with
  | zero => exact .pure s
  | succ times ih =>
    rw [explodeDie]
    split
    · exact .bind (Cup.rollOne_rolls faces) fun value => ih _ _
    · exact .pure s

private theorem combineDie_rolls (id times : Nat) (latest : Number) (s : DiceSequence) :
    (combineDie faces conditions id times latest s : RollM σ _).Rolls := by
  induction times generalizing latest s with
  | zero => exact .pure s
  | succ times ih =>
    rw [combineDie]
    split
    · exact .bind (Cup.rollOne_rolls faces) fun value => ih _ _
    · exact .pure s

end DiceSequence

theorem Modifier.apply_rolls (faces : Faces) (m : Modifier) (s : DiceSequence) :
    (m.apply faces s : RollM σ DiceSequence).Rolls := by
  rw [Modifier.apply]
  cases m.kind with
  | keepHigh | keepLow => exact .pure _
  | reroll => exact DiceSequence.rerollPasses_rolls faces _ _ _ s
  | explode => exact .foldlM (fun s id => DiceSequence.explodeDie_rolls faces _ _ id s) _ s
  | explodeCombine =>
    refine .foldlM (fun s id => ?_) _ s
    split
    · exact DiceSequence.combineDie_rolls faces _ id _ _ s
    · exact .pure s

namespace DicePool

theorem rework_rolls (p : DicePool) : (p.rework : RollM σ DiceSequence).Rolls :=
  .bind (.foldlM (fun s m => m.apply_rolls p.faces s) p.modifiers _) fun _ => .pure _

theorem roll_rolls (p : DicePool) : (p.roll : RollM σ DicePool).Rolls :=
  .bind (.roll _ _) fun _ => .bind (rework_rolls _) fun _ => .pure _

theorem reapply_rolls (p : DicePool) : (p.reapply : RollM σ DicePool).Rolls :=
  .bind (rework_rolls p) fun _ => .pure _

end DicePool

theorem PercentileDice.roll_rolls (p : PercentileDice) : (p.roll : RollM σ PercentileDice).Rolls :=
  .bind (.mapM (fun _ => .mapM (fun _ => .between _ _) _) _) fun _ => .pure _

namespace DiceGroup

theorem roll_rolls (g : DiceGroup) : (g.roll : RollM σ DiceGroup).Rolls := by
  cases g with
  | literal l => exact .pure _
  | pool p => exact .bind p.roll_rolls fun _ => .pure _
  | percentile p => exact .bind p.roll_rolls fun _ => .pure _
  | stunt p => exact .bind p.dice.roll_rolls fun _ => .pure _

theorem reapply_rolls (g : DiceGroup) : (g.reapply : RollM σ DiceGroup).Rolls := by
  cases g with
  | literal | percentile => exact .pure _
  | pool p => exact .bind p.reapply_rolls fun _ => .pure _
  | stunt p => exact .bind p.dice.reapply_rolls fun _ => .pure _

end DiceGroup
end Tabletop
