import Tabletop.Proofs.Dice.Limit
import Tabletop.Proofs.Expression.Rolling

/-! Rolling a formula with a limit and without. The limit is noticed only where it is passed, and then nothing is
drawn past it. -/
namespace Tabletop
open Expression (Pass)
variable {σ : Type} [RandomSource σ]

/-- All dice are counted before they are drawn, and the computation may fail in any way. -/
abbrev RollM.AllCounted {α : Type} (m : RollM σ α) : Prop := m.Counted fun _ => True

private theorem RollM.Rolls.allCounted {α : Type} {m : RollM σ α} (h : m.Rolls) : m.AllCounted :=
  Counted.mono h fun _ _ => trivial

private theorem rollGroup_rolls (gs : List PlacedGroup) (i : Nat) : (rollGroup gs i : RollM σ _).Rolls := by
  rw [rollGroup]
  split
  · exact .pure gs
  · exact .bind (DiceGroup.roll_rolls _) fun _ => .pure _

private theorem rollGroups_rolls (order : List Nat) (gs : List PlacedGroup) : (rollGroups order gs : RollM σ _).Rolls :=
  .foldlM rollGroup_rolls order gs

namespace Pass

private theorem rollAt_rolls (operand : Option Nat) (p : Pass) : (p.rollAt operand : RollM σ Pass).Rolls := by
  rw [rollAt_eq]
  exact (rollGroups_rolls _ _).map _

private theorem operator_counted (op : Operator) (p : Pass) : (p.operator op : RollM σ Pass).AllCounted := by
  rw [Pass.operator]
  split
  · exact .throw trivial
  · refine .bind (rollAt_rolls _ p).allCounted fun q => .bind ?_ fun _ => .pure _
    exact (rollAt_rolls _ q).allCounted

private theorem step_counted (made : Nat) (p : Pass) (t : PlacedToken) : (p.step made t : RollM σ Pass).AllCounted := by
  obtain ⟨token, span⟩ := t
  cases token with
  | modifier m conditions => exact .lift (fun _ => trivial) _
  | operator op => exact operator_counted op p
  | number value =>
    cases hspan : span.isEmpty with
    | true =>
      simp only [Pass.step, hspan]
      exact .pure _
    | false =>
      simp only [Pass.step, hspan]
      exact .pure _
  | dice | percentile | stunt => exact .pure _

private theorem finish_counted (p : Pass) : (p.finish : RollM σ Pass).AllCounted := by
  rw [Pass.finish]
  split
  · exact (rollAt_rolls _ p).allCounted
  · exact .throw trivial
  · exact .throw trivial

end Pass

namespace Expression

private theorem pass_counted (e : Expression) : (e.pass : RollM σ Pass).AllCounted := by
  rw [pass]
  exact .bind (.foldlM (Pass.step_counted _) _ _) Pass.finish_counted

private theorem substituteAverages_rolls (gs : List PlacedGroup) : (substituteAverages gs : RollM σ _).Rolls := by
  refine .mapM (fun g => ?_) gs
  split
  · exact .pure g
  · exact .bind (DiceGroup.reapply_rolls _) fun _ => .pure _

private theorem evaluated_counted (e : Expression) : (e.evaluated : RollM σ _).AllCounted := by
  rw [evaluated]
  refine .bind e.pass_counted fun p => .bind (.lift (fun _ => trivial) _) fun value => ?_
  dsimp only
  split
  · refine .bind (substituteAverages_rolls _).allCounted fun gs => ?_
    exact .bind (.lift (fun _ => trivial) _) fun _ => .pure _
  · exact .pure _

/-- Of the settings only the mode has a part in an evaluation. -/
theorem evaluated_withSettings (e : Expression) (settings : Settings) (hmode : settings.mode = e.settings.mode) :
    (evaluated { e with settings } : RollM σ _) = (fun r => ({ r.1 with settings }, r.2)) <$> e.evaluated := by
  have hpass : (pass { e with settings } : RollM σ Pass) = e.pass := rfl
  rw [evaluated, evaluated, hpass, map_bind]
  refine bind_congr fun p => ?_
  rw [map_bind]
  refine bind_congr fun v => ?_
  dsimp only
  rw [hmode]
  split
  · simp only [map_bind, map_pure]
  · rw [map_pure]

/-- What becomes of an expression when its evaluation has ended. -/
def close (e : Expression) :
    Except RollError (Expression × Number) × Cup σ → (Except RollError Number × Expression) × σ
  | (.ok (e, value), cup) => ((.ok value, { e with used := cup.used }), cup.source)
  | (.error why, cup) => ((.error why, { e with used := cup.used }), cup.source)

omit [RandomSource σ] in
private theorem close_cup (e : Expression) (r : Except RollError (Expression × Number) × Cup σ) :
    (e.close r).1.1 = r.1.map Prod.snd ∧ (e.close r).1.2.used = r.2.used ∧ (e.close r).2 = r.2.source := by
  obtain ⟨result, cup⟩ := r
  cases result <;> exact ⟨rfl, rfl, rfl⟩

private theorem roll_eq (e : Expression) (source : σ) :
    e.roll source = e.close (e.evaluated.run.run (Cup.fill e.settings.maxRolls source)) := by
  rw [roll]
  cases e.evaluated.run.run (Cup.fill e.settings.maxRolls source) with
  | mk result cup => cases result <;> rfl

/-- Other settings of the same mode change the limit and nothing else. -/
theorem roll_withSettings (e : Expression) (settings : Settings) (hmode : settings.mode = e.settings.mode)
    (source : σ) :
    roll { e with settings } source =
      let closed := e.close (e.evaluated.run.run (Cup.fill settings.maxRolls source))
      ((closed.1.1, { closed.1.2 with settings }), closed.2) := by
  rw [roll_eq, e.evaluated_withSettings settings hmode, RollM.run_map]
  cases e.evaluated.run.run (Cup.fill settings.maxRolls source) with
  | mk result cup => cases result <;> rfl

/-- The count of a roll is the number of values that it took, unless it was stopped. -/
theorem taken_roll (e : Expression) (source : Recorded σ) (h : (e.roll source).1.1 ≠ .error .tooManyRolls) :
    (e.roll source).2.taken = source.taken + (e.roll source).1.2.used := by
  rw [roll_eq] at h ⊢
  obtain ⟨houtcome, hused, hsource⟩ := e.close_cup (e.evaluated.run.run (Cup.fill e.settings.maxRolls source))
  have hne : (e.evaluated.run.run (Cup.fill e.settings.maxRolls source)).1 ≠ .error .tooManyRolls := fun herror =>
    h (by rw [houtcome, herror]; rfl)
  obtain ⟨n, hn⟩ := e.evaluated_counted.spent_of_ne_tooManyRolls _ (fun _ _ => Nat.zero_le _) hne
  rw [hsource, hused, hn.taken, hn.used]
  exact congrArg _ (Nat.zero_add n).symm

/-- A formula rolled for the first time with a limit and without. While the roll without limit takes no more values
than the limit allows, the other one is the same but for its settings. Where it takes more, the other one is
stopped, and has then taken no more than it may. The count of any roll that is not stopped, first or later, is the
number of values taken. -/
theorem roll_maxRolls (f : Formula) (settings : Settings) (limit : Nat) (source : σ) :
    let free := (ofFormula f { settings with maxRolls := none }).roll (Recorded.mk source #[])
    let held := (ofFormula f { settings with maxRolls := some limit }).roll (Recorded.mk source #[])
    (free.2.taken ≤ limit →
      held = ((free.1.1, { free.1.2 with settings := { settings with maxRolls := some limit } }), free.2)) ∧
    (limit < free.2.taken → held.1.1 = .error .tooManyRolls ∧ held.2.taken ≤ limit) ∧
    ∀ (e : Expression) (before : Recorded σ), (e.roll before).1.1 ≠ .error .tooManyRolls →
      (e.roll before).2.taken = before.taken + (e.roll before).1.2.used := by
  let fresh := ofFormula f { settings with maxRolls := none }
  let m : RollM (Recorded σ) (Expression × Number) := fresh.evaluated
  let cup := Cup.fill none (Recorded.mk source #[])
  let closed := fresh.close (m.run.run (cup.holding limit))
  intro free held
  have hcounted : m.AllCounted := fresh.evaluated_counted
  have hfree : free = fresh.close (m.run.run cup) := fresh.roll_eq _
  have hheld : held =
      ((closed.1.1, { closed.1.2 with settings := { settings with maxRolls := some limit } }), closed.2) :=
    fresh.roll_withSettings { settings with maxRolls := some limit } rfl _
  have htaken : free.2.taken = (m.run.run cup).2.used := by
    obtain ⟨n, hn⟩ := hcounted.spent cup rfl
    rw [hfree, (fresh.close_cup _).2.2, hn.used]
    exact hn.taken
  refine ⟨fun hle => ?_, fun hlt => ?_, taken_roll⟩
  · have hsame : closed = free := by
      rw [hfree]
      change fresh.close _ = _
      rw [hcounted.run_holding cup rfl (htaken ▸ hle)]
      cases m.run.run cup with
      | mk result cup => cases result <;> rfl
    rw [hheld, hsame]
  · obtain ⟨herror, hdrawn⟩ := hcounted.run_holding_of_lt cup rfl (Nat.zero_le _) (htaken ▸ hlt)
    obtain ⟨houtcome, -, hsource⟩ := fresh.close_cup (m.run.run (cup.holding limit))
    rw [hheld]
    refine ⟨?_, ?_⟩
    · change closed.1.1 = _
      rw [houtcome, herror]
      rfl
    · change Recorded.taken closed.2 ≤ limit
      rw [hsource]
      simpa [cup, Cup.fill, Recorded.taken] using hdrawn

/-- Two dice where two may be rolled, and where one may. -/
theorem roll_maxRolls_d6_add_d6 :
    let f : Formula := ⟨"d6+d6", [⟨.dice 1 (.sided 6) [], ⟨0, 2⟩⟩, ⟨.dice 1 (.sided 6) [], ⟨3, 5⟩⟩,
      ⟨.operator .add, ⟨2, 3⟩⟩]⟩
    let settings : Settings := {}
    let source := Recorded.mk (Script.mk [3, 4]) #[]
    let free := (ofFormula f { settings with maxRolls := none }).roll source
    let two := (ofFormula f { settings with maxRolls := some 2 }).roll source
    let one := (ofFormula f { settings with maxRolls := some 1 }).roll source
    Formula.read "d6+d6" = .ok f ∧
      (free.2.taken ≤ 2 ∧
        two = ((free.1.1, { free.1.2 with settings := { settings with maxRolls := some 2 } }), free.2)) ∧
      (1 < free.2.taken ∧ one.1.1 = .error .tooManyRolls ∧ one.2.taken ≤ 1) ∧
      (free.1.1 ≠ .error .tooManyRolls ∧ free.2.taken = source.taken + free.1.2.used) := by
  intro f settings source
  have hread : Formula.read "d6+d6" = .ok f := rfl
  let fresh := ofFormula f { settings with maxRolls := none }
  have htaken : (fresh.roll source).2.taken = 2 := by decide +kernel
  have hvalue : (fresh.roll source).1.1 = .ok (.whole 7) := rfl
  have hle : (fresh.roll source).2.taken ≤ 2 := htaken.le
  have hlt : 1 < (fresh.roll source).2.taken := htaken ▸ Nat.one_lt_two
  have hne : (fresh.roll source).1.1 ≠ .error .tooManyRolls := by
    rw [hvalue]
    exact nofun
  obtain ⟨hsame, -, hcount⟩ := roll_maxRolls f settings 2 (Script.mk [3, 4])
  obtain ⟨-, hstopped, -⟩ := roll_maxRolls f settings 1 (Script.mk [3, 4])
  have hwithin := hsame hle
  exact ⟨hread, ⟨hle, hwithin⟩, ⟨hlt, hstopped hlt⟩, hne, hcount fresh source hne⟩

end Expression
end Tabletop
