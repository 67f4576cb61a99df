import Tabletop.Proofs.Dice.Counting

/-! How a computation that rolls dice can end. Rolling and reworking a group fails only at the limit of
rolls, and otherwise leaves all of the group but its rolled values as it was. -/
namespace Tabletop
variable {σ α β : Type}

/-- A result is a value of one kind or an error of another. -/
def Ended (r : Except RollError α) (good : α → Prop) (bad : RollError → Prop) : Prop :=
  match r with
  | .ok a => good a
  | .error why => bad why

/-- From any cup the computation ends so. -/
def RollM.Ends (m : RollM σ α) (good : α → Prop) (bad : RollError → Prop) : Prop :=
  ∀ cup, Ended (m.run.run cup).1 good bad

/-- A failure ends a computation and leaves the state as it is. -/
theorem runState_bind {τ : Type} (m : ExceptT RollError (StateM τ) α) (f : α → ExceptT RollError (StateM τ) β) (t : τ) :
    (m >>= f).run.run t =
      match m.run.run t with
      | (.ok a, t') => (f a).run.run t'
      | (.error why, t') => (.error why, t') := by
  change (m.run.run t >>= fun r => (ExceptT.bindCont f r.1).run r.2) = _
  cases m.run.run t with
  | mk result t' => cases result <;> rfl

theorem RollM.run_map (g : α → β) (m : RollM σ α) (cup : Cup σ) :
    (g <$> m).run.run cup = ((m.run.run cup).1.map g, (m.run.run cup).2) := by
  rw [map_eq_pure_bind, runState_bind]
  cases m.run.run cup with
  | mk result cup' => cases result <;> rfl

theorem RollM.run_liftM (r : Except RollError α) (cup : Cup σ) : (liftM r : RollM σ α).run.run cup = (r, cup) := by
  cases r <;> rfl

namespace RollM.Ends
variable {m : RollM σ α} {f : α → RollM σ β} {good good' : α → Prop} {next : β → Prop}
  {bad bad' : RollError → Prop}

theorem pure {a : α} (h : good a) : Ends (pure a : RollM σ α) good bad := fun _ => h

theorem throw {why : RollError} (h : bad why) : Ends (throw why : RollM σ α) good bad := fun _ => h

theorem lift {r : Except RollError α} (h : Ended r good bad) : Ends (liftM r : RollM σ α) good bad := by
  intro cup
  rw [run_liftM]
  exact h

theorem any (m : RollM σ α) : m.Ends (fun _ => True) (fun _ => True) := by
  intro cup
  cases (m.run.run cup).1 with
  | ok a => trivial
  | error why => trivial

theorem mono (hm : m.Ends good bad) (hgood : ∀ a, good a → good' a) (hbad : ∀ why, bad why → bad' why) :
    m.Ends good' bad' := by
  intro cup
  have hc := hm cup
  revert hc
  cases (m.run.run cup).1 with
  | ok a => exact hgood a
  | error why => exact hbad why

theorem imp (hm : m.Ends good bad) (hgood : ∀ a, good a → good' a) : m.Ends good' bad := hm.mono hgood fun _ h => h

theorem of_ok (hm : m.Ends good bad) {cup cup' : Cup σ} {a : α} (hrun : m.run.run cup = (.ok a, cup')) : good a := by
  have ha := hm cup
  rwa [hrun] at ha

theorem bind (hm : m.Ends good bad) (hf : ∀ a, good a → (f a).Ends next bad) : (m >>= f).Ends next bad := by
  intro cup
  have hc := hm cup
  rw [runState_bind]
  revert hc
  cases m.run.run cup with
  | mk result cup' =>
    cases result with
    | ok a => exact fun ha => hf a ha cup'
    | error why => exact id

theorem map {g : α → β} (hm : m.Ends good bad) (hg : ∀ a, good a → next (g a)) : (g <$> m).Ends next bad := by
  rw [map_eq_pure_bind]
  exact hm.bind fun a ha => .pure (hg a ha)

theorem foldlM {f : β → α → RollM σ β} {inv : β → Prop} {as : List α}
    (hf : ∀ b, ∀ a ∈ as, inv b → (f b a).Ends inv bad) {b : β} (hb : inv b) : (as.foldlM f b).Ends inv bad := by
  induction as generalizing b with
  | nil => exact .pure hb
  | cons a as ih =>
    rw [List.foldlM_cons]
    exact (hf b a List.mem_cons_self hb).bind fun c hc => ih (fun d x hx => hf d x (List.mem_cons_of_mem a hx)) hc

/-- What is kept of every element is kept of the list. -/
theorem mapM {γ δ : Type} {f : γ → RollM σ β} {kept : β → δ} {was : γ → δ} {as : List γ}
    (hf : ∀ a ∈ as, (f a).Ends (fun b => kept b = was a) bad) :
    (as.mapM f).Ends (fun bs => bs.map kept = as.map was) bad := by
  induction as with
  | nil => exact .pure rfl
  | cons a as ih =>
    rw [List.mapM_cons]
    refine (hf a List.mem_cons_self).bind fun b hb => ?_
    refine (ih fun x hx => hf x (List.mem_cons_of_mem a hx)).bind fun bs hbs => .pure ?_
    rw [List.map_cons, List.map_cons, hb, hbs]

end RollM.Ends

/-- The failure at the limit of rolls. -/
def AtLimit (why : RollError) : Prop := why = .tooManyRolls

namespace Cup

/-- Dice are counted also where they are refused. -/
theorem run_spend (n : Nat) (cup : Cup σ) :
    (spend n : RollM σ Unit).run.run cup =
      (if cup.limit.any (· < cup.used + n) then .error .tooManyRolls else .ok (),
        { cup with used := cup.used + n }) := by
  change ((if cup.limit.any (· < cup.used + n) then throw .tooManyRolls else pure () :
    RollM σ Unit).run.run { cup with used := cup.used + n }) = _
  split <;> rfl

/-- Counts `n` dice and then asks the source, unless the dice are past the limit. -/
def charge (n : Nat) (answer : σ → α × σ) (cup : Cup σ) : Except RollError α × Cup σ :=
  if cup.limit.any (· < cup.used + n) then (.error .tooManyRolls, { cup with used := cup.used + n })
  else (.ok (answer cup.source).1, ⟨cup.limit, cup.used + n, (answer cup.source).2⟩)

private theorem charge_ended (cup : Cup σ) (n : Nat) (answer : σ → α × σ) {bad : RollError → Prop} :
    Ended (cup.charge n answer).1 (fun _ => True) (fun why => AtLimit why ∨ bad why) := by
  rw [charge]
  split
  · exact .inl rfl
  · trivial

private theorem run_spend_bind {n : Nat} {m : RollM σ α} {answer : σ → α × σ}
    (h : ∀ cup, m.run.run cup = (.ok (answer cup.source).1, { cup with source := (answer cup.source).2 }))
    (cup : Cup σ) : (spend n >>= fun _ => m).run.run cup = cup.charge n answer := by
  rw [runState_bind, run_spend, charge]
  cases cup.limit.any (· < cup.used + n) with
  | true => rfl
  | false => exact h _

variable [RandomSource σ]

/-- What a source answers to dice rolled one after the other, and what is left of it. -/
def answers : List Faces → σ → List Number × σ
  | [], source => ([], source)
  | f :: fs, source =>
    let (value, source) := RandomSource.between f.low f.high source
    let (values, source) := answers fs source
    (.whole value :: values, source)

private theorem run_draws (fs : List Faces) (cup : Cup σ) :
    (fs.mapM (fun f => return .whole (← draw f.low f.high)) : RollM σ (List Number)).run.run cup =
      (.ok (answers fs cup.source).1, { cup with source := (answers fs cup.source).2 }) := by
  induction fs generalizing cup with
  | nil => rfl
  | cons f fs ih =>
    rw [List.mapM_cons, runState_bind]
    change ((fs.mapM _ >>= fun values => Pure.pure (_ :: values) : RollM σ _).run.run _) = _
    rw [runState_bind, ih]
    rfl

theorem run_between (low high : Int64) (cup : Cup σ) :
    (between low high : RollM σ Int64).run.run cup = cup.charge 1 (RandomSource.between low high) :=
  run_spend_bind (fun _ => rfl) cup

theorem run_roll (n : Nat) (faces : Faces) (cup : Cup σ) :
    (roll n faces : RollM σ (List Number)).run.run cup = cup.charge n (answers (List.replicate n faces)) :=
  run_spend_bind (run_draws _) cup

end Cup

section Counted
variable [RandomSource σ] {bad : RollError → Prop} {m : RollM σ α}

private theorem RollM.Counted.ends (h : m.Counted bad) : m.Ends (fun _ => True) (fun why => AtLimit why ∨ bad why) := by
  induction h with
  | pure a => exact .pure trivial
  | throw h => exact .throw (.inr h)
  | between low high =>
    intro cup
    rw [Cup.run_between]
    exact cup.charge_ended _ _
  | roll n faces =>
    intro cup
    rw [Cup.run_roll]
    exact cup.charge_ended _ _
  | bind _ _ ihm ihf => exact ihm.bind fun a _ => ihf a

/-- At most the limit of rolls can make it fail. -/
theorem RollM.Rolls.ends (h : m.Rolls) : m.Ends (fun _ => True) AtLimit :=
  (Counted.ends h).mono (fun _ => id) fun _ hwhy => hwhy.resolve_right id

end Counted

/-- A pool as it is before its first roll. -/
def DicePool.bare (p : DicePool) : DicePool := { p with rolled := [], results := .empty }

def PercentileDice.bare (p : PercentileDice) : PercentileDice :=
  { p with rows := (ofDigits p.count p.digits).rows }

namespace DiceGroup

/-- A group as it is before its first roll: all of it but what was rolled. -/
def bare : DiceGroup → DiceGroup
  | literal l => literal l
  | pool p => pool p.bare
  | percentile p => percentile p.bare
  | stunt p => stunt ⟨p.dice.bare⟩

theorem bare_setValues (values : List Number) (g : DiceGroup) : (g.setValues values).bare = g.bare := by
  cases g <;> rfl

variable [RandomSource σ]

/-- What was rolled before has no part in a roll. -/
theorem roll_bare (g : DiceGroup) : (g.bare.roll : RollM σ DiceGroup) = g.roll := by
  cases g <;> rfl

theorem pool_roll_ends (p : DicePool) : (p.roll : RollM σ DicePool).Ends (fun q => q.bare = p.bare) AtLimit :=
  (RollM.Rolls.ends (.roll _ _)).bind fun _ _ => (DicePool.rework_rolls _).ends.bind fun _ _ => .pure rfl

theorem pool_reapply_ends (p : DicePool) : (p.reapply : RollM σ DicePool).Ends (fun q => q.bare = p.bare) AtLimit :=
  (DicePool.rework_rolls _).ends.bind fun _ _ => .pure rfl

private theorem percentile_roll_ends (p : PercentileDice) :
    (p.roll : RollM σ PercentileDice).Ends (fun q => q.bare = p.bare) AtLimit :=
  (RollM.Rolls.ends (.mapM (fun _ => .mapM (fun _ => .between _ _) _) _)).bind fun _ _ => .pure rfl

theorem roll_ends (g : DiceGroup) : (g.roll : RollM σ DiceGroup).Ends (fun d => d.bare = g.bare) AtLimit := by
  cases g with
  | literal l => exact .pure rfl
  | pool p => exact (pool_roll_ends p).bind fun q hq => .pure (congrArg pool hq)
  | percentile p => exact (percentile_roll_ends p).bind fun q hq => .pure (congrArg percentile hq)
  | stunt p => exact (pool_roll_ends p.dice).bind fun q hq => .pure (congrArg (fun d => stunt ⟨d⟩) hq)

theorem reapply_ends (g : DiceGroup) : (g.reapply : RollM σ DiceGroup).Ends (fun d => d.bare = g.bare) AtLimit := by
  cases g with
  | literal l => exact .pure rfl
  | pool p => exact (pool_reapply_ends p).bind fun q hq => .pure (congrArg pool hq)
  | percentile p => exact .pure rfl
  | stunt p => exact (pool_reapply_ends p.dice).bind fun q hq => .pure (congrArg (fun d => stunt ⟨d⟩) hq)

end DiceGroup
end Tabletop
