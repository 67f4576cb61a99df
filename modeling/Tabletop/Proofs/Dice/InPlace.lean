import Tabletop.Proofs.Dice.Ends

/-! The same rolls made on one group that is written to as it goes. New values go into a pool before they are reworked, so
a rework that fails finds them there, and the old ones are put back; percentile dice are rolled as a copy that is exchanged
for them when its last digit is rolled. Either way the group is left as a roll aside leaves it, and by a failure as it
was. -/
namespace Tabletop
variable {σ τ υ α β : Type}

/-- A computation that rolls dice and writes to a state. What it wrote before a failure stays written. -/
abbrev WriteM (τ σ : Type) := ExceptT RollError (StateT τ (StateM (Cup σ)))

namespace WriteM

def rolling (m : RollM σ α) : WriteM τ σ α := ExceptT.mk (StateT.lift m.run)

/-- Writes to a part of a whole, which is left with the part as that is left. -/
def onPart (whole : τ → υ) (part : τ) (w : WriteM τ σ α) : WriteM υ σ α :=
  ExceptT.mk fun _ => do
    let (outcome, part) ← w.run.run part
    return (outcome, whole part)

end WriteM

open WriteM (rolling onPart)

namespace DicePool
variable [RandomSource σ]

/-- The dice are reworked apart from the pool, and the result is written last. -/
def reapplyInPlace : WriteM DicePool σ Unit := do
  let results ← rolling (← get).rework
  modify ({ · with results })

/-- New values are written before they are reworked. When that fails the old ones are put back. -/
def rollInPlace : WriteM DicePool σ Unit := do
  let before ← get
  let rolled ← rolling (Cup.roll before.count before.faces)
  modify ({ · with rolled })
  tryCatch reapplyInPlace fun why => do
    modify ({ · with rolled := before.rolled })
    throw why

end DicePool

namespace DiceGroup
variable [RandomSource σ]

def rollInPlace : WriteM DiceGroup σ Unit := do
  match ← get with
  | literal _ => return
  | pool p => onPart pool p DicePool.rollInPlace
  | percentile p => set (percentile (← rolling p.roll))
  | stunt p => onPart (fun dice => stunt ⟨dice⟩) p.dice DicePool.rollInPlace

def reapplyInPlace : WriteM DiceGroup σ Unit := do
  match ← get with
  | literal _ | percentile _ => return
  | pool p => onPart pool p DicePool.reapplyInPlace
  | stunt p => onPart (fun dice => stunt ⟨dice⟩) p.dice DicePool.reapplyInPlace

end DiceGroup

/-- A failure ends a computation that writes to a state, and what it wrote stays. -/
theorem runEdit_bind (w : ExceptT RollError (StateT τ (StateM σ)) α) (k : α → ExceptT RollError (StateT τ (StateM σ)) β)
    (t : τ) (source : σ) :
    ((w >>= k).run.run t).run source =
      match (w.run.run t).run source with
      | ((.ok a, t'), source') => ((k a).run.run t').run source'
      | ((.error why, t'), source') => ((.error why, t'), source') := by
  change ((w.run.run t).run source >>= fun r => ((ExceptT.bindCont k r.1.1).run r.1.2).run r.2) = _
  cases (w.run.run t).run source with
  | mk result source' =>
    obtain ⟨outcome, t'⟩ := result
    cases outcome <;> rfl

namespace WriteM

private theorem run_tryCatch (w : WriteM τ σ α) (handle : RollError → WriteM τ σ α) (t : τ) (cup : Cup σ) :
    ((tryCatch w handle).run.run t).run cup =
      match (w.run.run t).run cup with
      | ((.ok a, t'), cup') => ((.ok a, t'), cup')
      | ((.error why, t'), cup') => ((handle why).run.run t').run cup' := by
  rw [ExceptT.run_tryCatch, StateT.run_bind, StateT.run_bind]
  cases (w.run.run t).run cup with
  | mk result cup' =>
    obtain ⟨outcome, t'⟩ := result
    cases outcome <;> rfl

/-- Rolling alone writes nothing. -/
theorem run_rolling (m : RollM σ α) (t : τ) (cup : Cup σ) :
    ((rolling m).run.run t).run cup = (((m.run.run cup).1, t), (m.run.run cup).2) := rfl

private theorem run_onPart (whole : τ → υ) (part : τ) (w : WriteM τ σ α) (u : υ) (cup : Cup σ) :
    ((onPart whole part w).run.run u).run cup =
      ((((w.run.run part).run cup).1.1, whole ((w.run.run part).run cup).1.2), ((w.run.run part).run cup).2) := rfl

end WriteM

private theorem RollM.run_update (act : α → RollM σ α) (a : α) (cup : Cup σ) :
    (update act a).run cup =
      match (act a).run.run cup with
      | (.ok b, cup') => ((.ok (), b), cup')
      | (.error why, cup') => ((.error why, a), cup') := by
  rw [update, StateT.run_bind]
  cases (act a).run.run cup with
  | mk result cup' => cases result <;> rfl

namespace DicePool
variable [RandomSource σ]

private theorem run_reapplyInPlace (p : DicePool) (cup : Cup σ) :
    (reapplyInPlace.run.run p).run cup =
      match p.rework.run.run cup with
      | (.ok results, cup') => ((.ok (), { p with results }), cup')
      | (.error why, cup') => ((.error why, p), cup') := by
  change (((rolling p.rework >>= fun results => modify ({ · with results }) : WriteM DicePool σ Unit).run.run p).run cup) = _
  rw [runEdit_bind, WriteM.run_rolling]
  cases p.rework.run.run cup with
  | mk result cup' => cases result <;> rfl

private theorem run_reapply (p : DicePool) (cup : Cup σ) :
    p.reapply.run.run cup =
      match p.rework.run.run cup with
      | (.ok results, cup') => (.ok { p with results }, cup')
      | (.error why, cup') => (.error why, cup') := by
  rw [reapply, runState_bind]
  cases p.rework.run.run cup with
  | mk result cup' => cases result <;> rfl

private theorem reapplyInPlace_eq (p : DicePool) :
    (reapplyInPlace.run.run p : StateM (Cup σ) _) = RollM.update reapply p := by
  funext cup
  have hinPlace := run_reapplyInPlace p cup
  have haside := RollM.run_update reapply p cup
  rw [run_reapply] at haside
  refine hinPlace.trans (.trans ?_ haside.symm)
  cases p.rework.run.run cup with
  | mk result cup' => cases result <;> rfl

/-- Whatever fails, the old values are there in the end. -/
theorem rollInPlace_eq (p : DicePool) : (rollInPlace.run.run p : StateM (Cup σ) _) = RollM.update roll p := by
  funext cup
  change ((rolling (Cup.roll p.count p.faces) >>= fun rolled => modify ({ · with rolled }) >>= fun _ => tryCatch _ _
    : WriteM DicePool σ Unit).run.run p).run cup = (RollM.update roll p).run cup
  rw [runEdit_bind, WriteM.run_rolling, RollM.run_update, roll, runState_bind]
  cases (Cup.roll p.count p.faces).run.run cup with
  | mk result cup' =>
    cases result with
    | error why => rfl
    | ok rolled =>
      change ((tryCatch reapplyInPlace _ : WriteM DicePool σ Unit).run.run { p with rolled }).run cup' = _
      rw [WriteM.run_tryCatch, run_reapplyInPlace]
      dsimp only
      rw [runState_bind]
      cases (rework { p with rolled }).run.run cup' with
      | mk result cup'' => cases result <;> rfl

end DicePool

namespace DiceGroup

/-- A roll of a part in place is a roll of the whole that keeps the rest. -/
theorem onPart_eq (whole : τ → υ) {part : τ} {w : WriteM τ σ Unit} {act : τ → RollM σ τ} {acts : υ → RollM σ υ}
    (hw : w.run.run part = RollM.update act part) (hacts : acts (whole part) = act part >>= fun t => pure (whole t)) :
    (onPart whole part w).run.run (whole part) = RollM.update acts (whole part) := by
  funext cup
  have hwhole := RollM.run_update acts (whole part) cup
  rw [hacts, runState_bind] at hwhole
  refine (WriteM.run_onPart whole part w (whole part) cup).trans (.trans ?_ hwhole.symm)
  rw [hw, RollM.run_update]
  cases (act part).run.run cup with
  | mk result cup' => cases result <;> rfl

variable [RandomSource σ]

private theorem rollInPlace_eq (g : DiceGroup) : (rollInPlace.run.run g : StateM (Cup σ) _) = RollM.update roll g := by
  cases g with
  | literal l => rfl
  | pool p => exact onPart_eq pool p.rollInPlace_eq rfl
  | stunt p => exact onPart_eq (fun dice => stunt ⟨dice⟩) p.dice.rollInPlace_eq rfl
  | percentile p =>
    funext cup
    have haside := RollM.run_update roll (percentile p) cup
    rw [roll, runState_bind] at haside
    change ((rolling p.roll >>= fun q => set (percentile q) : WriteM DiceGroup σ Unit).run.run (percentile p)).run cup = _
    rw [runEdit_bind, WriteM.run_rolling]
    refine .trans ?_ haside.symm
    cases p.roll.run.run cup with
    | mk result cup' => cases result <;> rfl

private theorem reapplyInPlace_eq (g : DiceGroup) :
    (reapplyInPlace.run.run g : StateM (Cup σ) _) = RollM.update reapply g := by
  cases g with
  | literal | percentile => rfl
  | pool p => exact onPart_eq pool p.reapplyInPlace_eq rfl
  | stunt p => exact onPart_eq (fun dice => stunt ⟨dice⟩) p.dice.reapplyInPlace_eq rfl

omit [RandomSource σ] in
private theorem update_of_error {act : α → RollM σ α} {a : α} {cup : Cup σ} {why : RollError}
    (h : ((RollM.update act a).run cup).1.1 = .error why) : ((RollM.update act a).run cup).1.2 = a := by
  rw [RollM.run_update] at h ⊢
  revert h
  cases (act a).run.run cup with
  | mk result cup' =>
    cases result with
    | ok b => nofun
    | error _ => exact fun _ => rfl

/-- A group of any kind and in any state, rolled or reworked where it stands: it ends as a roll aside does, and when
that is a failure, wherever it comes from, nothing about the group has changed. A later rework then starts from the values
that were rolled before. -/
theorem inPlace_atomic (g : DiceGroup) (cup : Cup σ) :
    let rolled := (rollInPlace.run.run g).run cup
    let reworked := (reapplyInPlace.run.run g).run cup
    (rolled = (RollM.update roll g).run cup ∧ ∀ why, rolled.1.1 = .error why → rolled.1.2 = g) ∧
    (reworked = (RollM.update reapply g).run cup ∧ ∀ why, reworked.1.1 = .error why → reworked.1.2 = g) ∧
    ∀ why, rolled.1.1 = .error why → ∀ later : Cup σ,
      (reapplyInPlace.run.run rolled.1.2).run later = (RollM.update reapply g).run later := by
  intro rolled reworked
  have hroll : rolled = (RollM.update roll g).run cup := congrFun g.rollInPlace_eq cup
  have hrework : reworked = (RollM.update reapply g).run cup := congrFun g.reapplyInPlace_eq cup
  have hkept : ∀ why, rolled.1.1 = .error why → rolled.1.2 = g := fun why h => by
    rw [hroll] at h ⊢
    exact update_of_error h
  refine ⟨⟨hroll, hkept⟩, ⟨hrework, fun why h => ?_⟩, fun why h later => ?_⟩
  · rw [hrework] at h ⊢
    exact update_of_error h
  · rw [hkept why h]
    exact congrFun g.reapplyInPlace_eq later

/-- A die that explodes beyond a limit of two keeps the three it shows, and is reworked from it. -/
theorem inPlace_atomic_explosion :
    let d6 : DicePool :=
      { count := 1, faces := .sided 6, modifiers := [⟨.explode, 100, []⟩], rolled := [.whole 3],
        results := .ofValues [.whole 3] }
    let rolled := (rollInPlace.run.run (pool d6)).run (Cup.fill (some 2) (Script.mk [6, 6, 6]))
    rolled.1.1 = .error .tooManyRolls ∧ rolled.1.2 = pool d6 ∧
      (((reapplyInPlace.run.run rolled.1.2).run (Cup.fill none (Script.mk []))).1.2).text = "[3]" := by
  intro d6 rolled
  obtain ⟨⟨-, hkept⟩, -, hlater⟩ := inPlace_atomic (pool d6) (Cup.fill (some 2) (Script.mk [6, 6, 6]))
  have hfailed : rolled.1.1 = .error .tooManyRolls := rfl
  have hshown : (((RollM.update reapply (pool d6)).run (Cup.fill none (Script.mk []))).1.2).text = "[3]" := by
    decide +kernel
  exact ⟨hfailed, hkept _ hfailed, (congrArg (·.1.2.text) (hlater _ hfailed _)).trans hshown⟩

end DiceGroup
end Tabletop
