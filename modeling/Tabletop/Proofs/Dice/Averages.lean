import Tabletop.Proofs.Dice.Ends

/-! Pools with averages in place of rolls. All dice of such a pool have one value, so a modifier that rolls dice rolls
either all of them or none. Where every modifier leaves them alone, reworking the pool draws nothing, and what is left
is keeping and scoring. -/
namespace Tabletop
variable {σ : Type}

namespace DiceSequence

/-- All dice have the same value. -/
def Uniform (x : Number) (s : DiceSequence) : Prop := ∀ id, ∀ d ∈ s.die? id, d.value = x

variable {x : Number} {s : DiceSequence}

private theorem Uniform.ofValues {values : List Number} (h : ∀ v ∈ values, v = x) : (ofValues values).Uniform x := by
  have hpush (s : DiceSequence) (hs : s.Uniform x) : (values.foldl (fun s v => s.push (.rolled v)) s).Uniform x := by
    induction values generalizing s with
    | nil => exact hs
    | cons v values ih =>
      refine ih (fun w hw => h w (List.mem_cons_of_mem v hw)) _ fun id d hd => ?_
      rw [die?_push] at hd
      split at hd
      · cases hd
        exact h v List.mem_cons_self
      · exact hs id d hd
  exact hpush empty fun id d hd => by simp [die?, empty] at hd

private theorem Uniform.keep (hs : s.Uniform x) (less : Number → Number → Bool) (n : Nat) :
    (s.keep less n).Uniform x := by
  intro id d hd
  have hvalue := value_keep less n s id
  rw [Option.mem_def.1 hd] at hvalue
  obtain ⟨e, he, hvalue⟩ := Option.map_eq_some_iff.1 hvalue.symm
  exact hvalue.symm.trans (hs id e he)

variable {conditions : List Condition}

private theorem Uniform.meets (hs : s.Uniform x) (hx : Condition.anyMet conditions x = false) (id : Nat) :
    s.meets conditions id = false := by
  rw [DiceSequence.meets]
  cases hd : s.die? id with
  | none => rfl
  | some d => rw [Option.any_some, hs id d hd, hx]

private theorem Uniform.filter_meets (hs : s.Uniform x) (hx : Condition.anyMet conditions x = false) (ids : List Nat) :
    ids.filter (s.meets conditions) = [] :=
  List.filter_eq_nil_iff.2 fun id _ => by rw [hs.meets hx id]; exact Bool.false_ne_true

private theorem foldlM_eq_self {f : DiceSequence → Nat → RollM σ DiceSequence} (h : ∀ id, f s id = pure s)
    (ids : List Nat) : ids.foldlM f s = pure s := by
  induction ids with
  | nil => rfl
  | cons id ids ih => rw [List.foldlM_cons, h, pure_bind, ih]

variable [RandomSource σ] {times : Nat}

private theorem Uniform.reroll (hs : s.Uniform x) (h : times = 0 ∨ Condition.anyMet conditions x = false)
    (faces : Faces) : (s.reroll faces times conditions : RollM σ DiceSequence) = pure s := by
  rw [DiceSequence.reroll]
  rcases times with _ | n
  · rfl
  · rw [rerollPasses, hs.filter_meets (h.resolve_left (Nat.succ_ne_zero n))]

private theorem Uniform.explode (hs : s.Uniform x) (h : times = 0 ∨ Condition.anyMet conditions x = false)
    (faces : Faces) : (s.explode faces times conditions : RollM σ DiceSequence) = pure s := by
  rw [DiceSequence.explode]
  rcases h with rfl | hx
  · exact foldlM_eq_self (fun _ => rfl) _
  · rw [hs.filter_meets hx, List.foldlM_nil]

private theorem Uniform.explodeCombine (hs : s.Uniform x) (h : times = 0 ∨ Condition.anyMet conditions x = false)
    (faces : Faces) : (s.explodeCombine faces times conditions : RollM σ DiceSequence) = pure s := by
  rw [DiceSequence.explodeCombine]
  rcases h with rfl | hx
  · refine foldlM_eq_self (fun id => ?_) _
    cases s.die? id <;> rfl
  · rw [hs.filter_meets hx, List.foldlM_nil]

end DiceSequence

namespace Modifier

/-- Whether a modifier rolls none of the dice in a pool where all have the value `x`. -/
def spares (faces : Faces) (x : Number) (m : Modifier) : Bool :=
  match m.kind with
  | .keepHigh | .keepLow => true
  | .reroll => m.count = 0 || !Condition.anyMet (m.conditionsOr faces.low) x
  | .explode | .explodeCombine => m.count = 0 || !Condition.anyMet (m.conditionsOr faces.high) x

/-- What a modifier does apart from rolling dice. -/
def dropOnly (m : Modifier) (s : DiceSequence) : DiceSequence :=
  match m.kind with
  | .keepHigh => s.keepHigh m.count
  | .keepLow => s.keepLow m.count
  | .reroll | .explode | .explodeCombine => s

variable {faces : Faces} {x : Number} {m : Modifier} {s : DiceSequence}

private theorem uniform_dropOnly (hs : s.Uniform x) : (m.dropOnly s).Uniform x := by
  rw [dropOnly]
  cases m.kind with
  | keepHigh | keepLow => exact hs.keep _ _
  | reroll | explode | explodeCombine => exact hs

variable [RandomSource σ]

private theorem apply_of_spares (h : m.spares faces x = true) (hs : s.Uniform x) :
    (m.apply faces s : RollM σ DiceSequence) = pure (m.dropOnly s) := by
  rw [spares] at h
  rw [apply, dropOnly]
  cases hkind : m.kind with
  | keepHigh | keepLow => rfl
  | reroll => exact hs.reroll (by simpa [hkind] using h) faces
  | explode => exact hs.explode (by simpa [hkind] using h) faces
  | explodeCombine => exact hs.explodeCombine (by simpa [hkind] using h) faces

end Modifier

namespace DicePool

/-- The dice of a pool when none of its modifiers rolls any. -/
def settle (p : DicePool) : DiceSequence :=
  let kept := p.modifiers.foldl (fun s m => m.dropOnly s) (.ofValues p.rolled)
  if p.conditions.isEmpty then kept else kept.score p.conditions

private theorem foldlM_apply_of_spares [RandomSource σ] {faces : Faces} {x : Number} {ms : List Modifier}
    {s : DiceSequence} (h : ∀ m ∈ ms, m.spares faces x = true) (hs : s.Uniform x) :
    (ms.foldlM (fun s m => m.apply faces s) s : RollM σ DiceSequence) =
      pure (ms.foldl (fun s m => m.dropOnly s) s) := by
  induction ms generalizing s with
  | nil => rfl
  | cons m ms ih =>
    rw [List.foldlM_cons, Modifier.apply_of_spares (h m List.mem_cons_self) hs, pure_bind, List.foldl_cons]
    exact ih (fun n hn => h n (List.mem_cons_of_mem m hn)) (Modifier.uniform_dropOnly hs)

private theorem rework_of_spares [RandomSource σ] {p : DicePool} {x : Number} (hrolled : ∀ v ∈ p.rolled, v = x)
    (h : ∀ m ∈ p.modifiers, m.spares p.faces x = true) : (p.rework : RollM σ DiceSequence) = pure p.settle := by
  rw [rework, foldlM_apply_of_spares h (.ofValues hrolled), pure_bind, settle]

/-- A pool of averages. -/
def averages (p : DicePool) : DicePool := p.setValues (List.replicate p.count (.float p.faces.average))

end DicePool

namespace DiceGroup

/-- Whether averages, once they stand in for the rolls, are rolled over by no modifier. -/
def spared : DiceGroup → Bool
  | pool p => p.modifiers.all (·.spares p.faces (.float p.faces.average))
  | literal _ | percentile _ | stunt _ => true

/-- The ends of this die have a sum that does not fit, so its average is below zero and rolled again. -/
example :
    let again : Modifier := ⟨.reroll, 1, [⟨.less, .whole 0⟩]⟩
    (pool { count := 1, faces := .sided 9223372036854775807, modifiers := [again] }).spared = false := by
  decide +kernel

/-- The group with averages for its rolls, kept and scored with no dice rolled. -/
def settled : DiceGroup → DiceGroup
  | pool p => pool { p.averages with results := p.averages.settle }
  | g => g

/-- Rolls leave no mark on averages. -/
theorem settled_bare {g : DiceGroup} (h : g.supportsAverage = true) : g.bare.settled = g.settled := by
  cases g with
  | literal | pool => rfl
  | percentile | stunt => cases h

variable [RandomSource σ]

theorem reapply_averages {p : DicePool} (h : (pool p).spared = true) :
    ((pool p.averages).reapply : RollM σ DiceGroup) = pure (pool p).settled := by
  have hrolled : ∀ v ∈ p.averages.rolled, v = .float p.faces.average := fun v => List.eq_of_mem_replicate
  have hspares : ∀ m ∈ p.averages.modifiers, m.spares p.faces (.float p.faces.average) = true := List.all_eq_true.1 h
  rw [reapply, DicePool.reapply, DicePool.rework_of_spares hrolled hspares]
  rfl

end DiceGroup
end Tabletop
