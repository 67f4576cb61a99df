import Tabletop.Proofs.Dice.Ends
import Tabletop.Proofs.Expression.Rolling

/-! The evaluation of a tree: first all groups are rolled, each once and in the tree's order, and then the
value is that of the tree for their totals. -/
namespace Tabletop
open Expression (Pass)

namespace Instruction

/-- The program of a tree leaves the tree's value on the stack. -/
theorem foldlM_step_instructions (t : Calculation) (gs : List PlacedGroup) {k : Nat}
    (h : k + t.size ≤ gs.length) (stack : List Number) :
    (t.instructions k).foldlM (step gs) stack = (· :: stack) <$> t.value (totalOf gs) k := by
  induction t generalizing k stack with
  | literal value span invisible => rfl
  | group o ms =>
    have hg : gs[k]? = some gs[k] := List.getElem?_eq_getElem h
    simp [Calculation.instructions, step, hg, Calculation.value, totalOf]
  | binary op sign l r ihl ihr =>
    rw [Calculation.size] at h
    rw [Calculation.instructions, List.foldlM_append, List.foldlM_append, ihl (by omega), Calculation.value]
    cases l.value (totalOf gs) k with
    | error why => rfl
    | ok a =>
      change (r.instructions (k + l.size)).foldlM (step gs) (a :: stack) >>= _ = _
      rw [ihr (by omega)]
      cases r.value (totalOf gs) (k + l.size) with
      | error why => rfl
      | ok b =>
        change [operator op].foldlM (step gs) (b :: a :: stack) = (· :: stack) <$> op.apply a b
        rw [List.foldlM_cons, step]
        cases op.apply a b <;> rfl

theorem run_instructions (t : Calculation) (gs : List PlacedGroup) (h : gs.length = t.size) :
    run gs (t.instructions 0) = t.value (totalOf gs) 0 := by
  rw [run, foldlM_step_instructions t gs (by omega)]
  cases t.value (totalOf gs) 0 <;> rfl

end Instruction

namespace Expression
variable {σ : Type} [RandomSource σ]

@[simp] theorem ofFormula_settings (f : Formula) (settings : Settings) :
    (ofFormula f settings).settings = settings := rfl

theorem pass_eq {t : Calculation} {e : Expression} {gs : List PlacedGroup} (ht : e.formula.tokens = t.tokens)
    (h : Meets e.groups.length ⟨e.groups, [], [], 0⟩ t gs) :
    (e.pass : RollM σ Pass) =
      (fun hs => ⟨hs, (t.instructions 0).reverse, [t.unrolled 0], t.size⟩) <$> rollGroups t.rollOrder gs := by
  rw [pass, ht, foldlM_step_tokens t h, Calculation.rollOrder, rollGroups_append, bind_map_left]
  simp [Pass.finish, Pass.rollAt_eq]

/-- What holds of an evaluation holds of a roll. The expression changes after a value only, but for the count. -/
theorem roll_cases {e : Expression} {good : Expression × Number → Prop} {bad : RollError → Prop}
    (h : (e.evaluated : RollM σ _).Ends good bad) (source : σ) :
    (∃ r used, good r ∧ (e.roll source).1 = (.ok r.2, { r.1 with used })) ∨
      ∃ why used, bad why ∧ (e.roll source).1 = (.error why, { e with used }) := by
  have hcup := h (Cup.fill e.settings.maxRolls source)
  rw [roll]
  revert hcup
  cases e.evaluated.run.run (Cup.fill e.settings.maxRolls source) with
  | mk result cup =>
    cases result with
    | ok r => exact fun hr => .inl ⟨r, cup.used, hr, rfl⟩
    | error why => exact fun hwhy => .inr ⟨why, cup.used, hwhy, rfl⟩

private theorem evaluated_fixed (e : Expression) :
    (e.evaluated : RollM σ _).Ends (fun r => r.1.formula = e.formula ∧ r.1.settings = e.settings) fun _ => True := by
  rw [evaluated]
  refine (RollM.Ends.any _).bind fun p _ => (RollM.Ends.any _).bind fun v _ => ?_
  dsimp only
  split
  · exact (RollM.Ends.any _).bind fun gs _ => (RollM.Ends.any _).bind fun w _ => .pure ⟨rfl, rfl⟩
  · exact .pure ⟨rfl, rfl⟩

/-- Rolls change neither the formula nor how it is rolled. -/
theorem roll_fixed (e : Expression) (source : σ) :
    (e.roll source).1.2.formula = e.formula ∧ (e.roll source).1.2.settings = e.settings := by
  obtain ⟨r, used, hr, hroll⟩ | ⟨why, used, -, hroll⟩ := roll_cases e.evaluated_fixed source
  · rw [hroll]
    exact hr
  · rw [hroll]
    exact ⟨rfl, rfl⟩

/-- Averages in place of rolls leave all else as it was. -/
theorem substituteAverages_ends (gs : List PlacedGroup) :
    (substituteAverages gs : RollM σ _).Ends (fun hs => hs.map PlacedGroup.bare = gs.map PlacedGroup.bare)
      AtLimit := by
  refine RollM.Ends.mapM fun g _ => ?_
  split
  · exact .pure rfl
  · refine (DiceGroup.reapply_ends _).bind fun d hd => .pure ?_
    rw [PlacedGroup.bare, hd, DiceGroup.bare_setValues, PlacedGroup.bare]

/-- Evaluation in roll mode is the rolling of all groups and then, with nothing left to chance, the arithmetic. -/
theorem evaluated_tokens (t : Calculation) (text : String) {settings : Settings} (hmode : settings.mode = .roll) :
    ((ofFormula ⟨text, t.tokens⟩ settings).evaluated : RollM σ _) = do
      let gs ← rollGroups t.rollOrder t.groups
      let v ← liftM (t.value (totalOf gs) 0)
      let e := ofFormula ⟨text, t.tokens⟩ settings
      return ({ e with groups := gs, program := t.instructions 0, value := some v }, v) := by
  have hpass := pass_eq (σ := σ) (e := ofFormula ⟨text, t.tokens⟩ settings) rfl (.inl ⟨rfl, rfl, rfl⟩)
  rw [evaluated, hpass, bind_map_left]
  refine rollGroups_bind_congr _ fun gs hgs => ?_
  have hrun := Instruction.run_instructions t gs (hgs.trans t.length_groups)
  simp [hrun, ofFormula, hmode]

/-- Rolling the postfix form of a tree rolls every group once, in the tree's order. Only then comes the
arithmetic: the value of the tree for the totals rolled, or the failure of one of its divisions. -/
theorem roll_tokens (t : Calculation) (text : String) (settings : Settings) (hmode : settings.mode = .roll)
    (source : σ) :
    t.rollOrder.Perm (List.range t.groups.length) ∧
    let e := ofFormula ⟨text, t.tokens⟩ settings
    match (rollGroups t.rollOrder t.groups).run.run (Cup.fill settings.maxRolls source) with
    | (.error why, cup) => e.roll source = ((.error why, { e with used := cup.used }), cup.source)
    | (.ok gs, cup) =>
      (∃ v, t.value (totalOf gs) 0 = .ok v ∧ ¬ t.DividesByZero (totalOf gs) 0 ∧
        e.roll source =
          ((.ok v, { e with groups := gs, program := t.instructions 0, value := some v, used := cup.used }),
            cup.source)) ∨
      (t.DividesByZero (totalOf gs) 0 ∧
        e.roll source = ((.error .zeroDivision, { e with used := cup.used }), cup.source)) := by
  refine ⟨t.length_groups ▸ t.rollOrder_perm, ?_⟩
  simp only [roll, evaluated_tokens t text hmode, runState_bind, RollM.run_liftM, ofFormula_settings]
  cases (rollGroups t.rollOrder t.groups).run.run (Cup.fill settings.maxRolls source) with
  | mk result cup =>
    cases result with
    | error why => rfl
    | ok gs =>
      cases hv : t.value (totalOf gs) 0 with
      | ok v =>
        have hdiv : ¬ t.DividesByZero (totalOf gs) 0 := fun hdiv => by
          cases hv.symm.trans ((t.value_eq_error_iff _ _ _).2 ⟨rfl, hdiv⟩)
        exact .inl ⟨v, hv, hdiv, by simp only [hv]; rfl⟩
      | error why =>
        obtain ⟨rfl, hdiv⟩ := (t.value_eq_error_iff _ _ _).1 hv
        exact .inr ⟨hdiv, by simp only [hv]⟩

/-- One die less another. -/
def oneLess : Calculation :=
  .binary .sub ⟨3, 4⟩ (.group (.dice 1 (.sided 6) [] ⟨0, 3⟩) []) (.group (.dice 1 (.sided 4) [] ⟨4, 7⟩) [])

theorem roll_oneLess :
    ({} : Settings).mode = .roll ∧ oneLess.rollOrder = [1, 0] ∧
      ((ofFormula ⟨"1d6-1d4", oneLess.tokens⟩ {}).roll (Script.mk [1, 5])).1.1 = .ok (.whole 4) := by
  refine ⟨rfl, rfl, ?_⟩
  obtain ⟨-, h⟩ := roll_tokens oneLess "1d6-1d4" {} rfl (Script.mk [1, 5])
  obtain ⟨v, hv, -, hroll⟩ | ⟨hdiv, -⟩ := h
  · rw [hroll]
    cases hv
    rfl
  · have hzero := (Calculation.value_eq_error_iff _ oneLess 0 .zeroDivision).2 ⟨rfl, hdiv⟩
    cases hzero

end Expression
end Tabletop
