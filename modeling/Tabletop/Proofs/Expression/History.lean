import Tabletop.Proofs.Expression.Evaluation

/-! Rolling has no memory. Groups are made once and serve all later rolls, but a roll reads nothing of an
earlier one, and after any rolls and restored records the next roll is as the first would have been. -/
namespace Tabletop
open Expression (Pass)
variable {σ : Type} [RandomSource σ]

section RollGroups
variable {gs hs : List PlacedGroup}

private theorem PlacedGroup.roll_eq {g h : PlacedGroup} (hbare : g.bare = h.bare) :
    (g.group.roll : RollM σ DiceGroup) = h.group.roll := by
  have hgroup : g.group.bare = h.group.bare := congrArg PlacedGroup.group hbare
  rw [← DiceGroup.roll_bare, hgroup, DiceGroup.roll_bare]

/-- Where every group is rolled, what was rolled before does not matter. -/
theorem rollGroups_congr (order : List Nat) (hbare : gs.map PlacedGroup.bare = hs.map PlacedGroup.bare)
    (hrest : ∀ i, i ∉ order → gs[i]? = hs[i]?) : (rollGroups order gs : RollM σ _) = rollGroups order hs := by
  -- At the indices still to be rolled the lists may differ; a roll there makes them equal.
  induction order generalizing gs hs with
  | nil =>
    have heq : gs = hs := List.ext_getElem? fun i => hrest i List.not_mem_nil
    rw [heq]
  | cons i order ih =>
    rw [rollGroups_cons, rollGroups_cons]
    have hi : gs[i]?.map PlacedGroup.bare = hs[i]?.map PlacedGroup.bare := by
      rw [← List.getElem?_map, hbare, List.getElem?_map]
    cases hg : gs[i]? with
    | none =>
      have hh : hs[i]? = none := by simpa [hg] using hi.symm
      have hkeep : ∀ j, j ∉ order → gs[j]? = hs[j]? := fun j hj => by
        by_cases hji : j = i
        · rw [hji, hg, hh]
        · exact hrest j (by simp [hji, hj])
      simpa [rollGroup, hg, hh] using ih hbare hkeep
    | some g =>
      obtain ⟨h, hh, hgh⟩ : ∃ h, hs[i]? = some h ∧ h.bare = g.bare := by simpa [hg] using hi.symm
      have hspan : h.bare.span = g.bare.span := congrArg PlacedGroup.span hgh
      change h.span = g.span at hspan
      rw [rollGroup_of_getElem? hg, rollGroup_of_getElem? hh, PlacedGroup.roll_eq hgh, hspan, bind_map_left,
        bind_map_left]
      refine bind_congr fun d => ih ?_ fun j hj => ?_
      · rw [List.map_set, List.map_set, hbare]
      · by_cases hji : j = i
        · have hlen : gs.length = hs.length := by simpa using congrArg List.length hbare
          rw [hji, List.getElem?_set_self', List.getElem?_set_self', hg, hh]
          rfl
        · rw [List.getElem?_set_ne (Ne.symm hji), List.getElem?_set_ne (Ne.symm hji)]
          exact hrest j (by simp [hji, hj])

end RollGroups

namespace Expression

/-- What rolls and restored records make of an expression. A failed roll counts, and a record that is refused
changes nothing. -/
inductive Reaches (σ : Type) [RandomSource σ] (first : Expression) : Expression → Prop where
  | refl : Reaches σ first first
  | rolled {e : Expression} (h : Reaches σ first e) (source : σ) : Reaches σ first (e.roll source).1.2
  | restored {e e' : Expression} (h : Reaches σ first e) (r : Record) (hr : e.restore r = .ok e') :
    Reaches σ first e'

/-- An expression of a tree: its groups are still to be made, or are those of the tree in all but what was
rolled. -/
structure Serves (t : Calculation) (first e : Expression) : Prop where
  formula : e.formula = first.formula
  settings : e.settings = first.settings
  groups : e.groups = [] ∨ e.groups.map PlacedGroup.bare = t.groups.map PlacedGroup.bare

private theorem Serves.pass_eq {t : Calculation} {first e : Expression} (h : Serves t first e)
    (ht : first.formula.tokens = t.tokens) :
    (e.pass : RollM σ Pass) =
      (fun gs => ⟨gs, (t.instructions 0).reverse, [t.unrolled 0], t.size⟩) <$> rollGroups t.rollOrder t.groups := by
  have hte : e.formula.tokens = t.tokens := by rw [h.formula, ht]
  rcases h.groups with hnil | hbare
  · apply Expression.pass_eq hte
    rw [hnil]
    exact .inl ⟨rfl, rfl, rfl⟩
  · have hlen : e.groups.length = t.size := by
      rw [← t.length_groups]
      simpa using congrArg List.length hbare
    rw [Expression.pass_eq hte (.inr ⟨rfl, by simp [hlen], rfl⟩)]
    have hall : ∀ i, i ∉ t.rollOrder → e.groups[i]? = t.groups[i]? := fun i hi => by
      have hle : t.size ≤ i := by simpa [t.rollOrder_perm.mem_iff] using hi
      rw [List.getElem?_eq_none (by omega), List.getElem?_eq_none (by rw [t.length_groups]; exact hle)]
    rw [rollGroups_congr t.rollOrder hbare hall]

private theorem Serves.pass_ends {t : Calculation} {first e : Expression} (h : Serves t first e)
    (ht : first.formula.tokens = t.tokens) :
    (e.pass : RollM σ Pass).Ends (fun p => p.groups.map PlacedGroup.bare = t.groups.map PlacedGroup.bare)
      (fun _ => True) := by
  have hroll := (rollGroups_ends (σ := σ) t.rollOrder t.groups).mono (fun _ => id) fun _ _ => trivial
  rw [h.pass_eq ht]
  exact hroll.map fun gs hgs => hgs

/-- What is evaluated has the groups of the tree. -/
theorem Serves.evaluated_ends {t : Calculation} {first e : Expression} (h : Serves t first e)
    (ht : first.formula.tokens = t.tokens) :
    (e.evaluated : RollM σ _).Ends
      (fun r => Serves t first r.1 ∧ r.1.groups.map PlacedGroup.bare = t.groups.map PlacedGroup.bare)
      (fun _ => True) := by
  rw [evaluated]
  refine (h.pass_ends ht).bind fun p hp => (RollM.Ends.any _).bind fun v _ => ?_
  dsimp only
  split
  · have haverage := (substituteAverages_ends (σ := σ) p.groups).mono (fun _ => id) fun _ _ => trivial
    refine haverage.bind fun gs hgs => (RollM.Ends.any _).bind fun w _ => .pure ?_
    exact ⟨⟨h.formula, h.settings, .inr (hgs.trans hp)⟩, hgs.trans hp⟩
  · exact .pure ⟨⟨h.formula, h.settings, .inr hp⟩, hp⟩

/-- Two expressions of the same formula and settings that pass alike evaluate alike, but for an old count. -/
theorem evaluated_congr {e first : Expression} (hformula : e.formula = first.formula)
    (hsettings : e.settings = first.settings) (hpass : (e.pass : RollM σ Pass) = first.pass) :
    (e.evaluated : RollM σ _) = (fun r => ({ r.1 with used := e.used }, r.2)) <$> first.evaluated := by
  rw [evaluated, evaluated, hpass, hformula, hsettings, map_bind]
  refine bind_congr fun p => ?_
  rw [map_bind]
  refine bind_congr fun v => ?_
  dsimp only
  split
  · simp only [map_bind, map_pure]
  · rw [map_pure]

private theorem Serves.rolled {t : Calculation} {first e : Expression} (h : Serves t first e)
    (ht : first.formula.tokens = t.tokens) (source : σ) : Serves t first (e.roll source).1.2 := by
  obtain ⟨r, used, ⟨hr, -⟩, hroll⟩ | ⟨why, used, -, hroll⟩ := roll_cases (h.evaluated_ends ht) source
  · rw [hroll]
    exact ⟨hr.formula, hr.settings, hr.groups⟩
  · rw [hroll]
    exact ⟨h.formula, h.settings, h.groups⟩

/-- A roll that succeeds leaves the formula and the groups of its tree. -/
theorem Serves.groups_of_roll {t : Calculation} {first e e' : Expression} (h : Serves t first e)
    (ht : first.formula.tokens = t.tokens) {source rest : σ} {v : Number} (hroll : e.roll source = ((.ok v, e'), rest)) :
    e'.formula = first.formula ∧ e'.groups.map PlacedGroup.bare = t.groups.map PlacedGroup.bare := by
  obtain ⟨r, used, ⟨hr, hgroups⟩, heq⟩ | ⟨why, used, -, heq⟩ := roll_cases (h.evaluated_ends ht) source
  · rw [hroll] at heq
    cases heq
    exact ⟨hr.formula, hgroups⟩
  · rw [hroll] at heq
    cases heq

private theorem Serves.restored {t : Calculation} {first e e' : Expression} (h : Serves t first e) {r : Record}
    (hr : e.restore r = .ok e') : Serves t first e' := by
  rw [restore] at hr
  split at hr
  · cases hr
  · split at hr
    · cases hr
      exact ⟨h.formula, h.settings, h.groups⟩
    · cases hr

theorem Reaches.serves {t : Calculation} {first e : Expression} (h : Reaches σ first e)
    (ht : first.formula.tokens = t.tokens) (hfresh : first.groups = []) : Serves t first e := by
  induction h with
  | refl => exact ⟨rfl, rfl, .inl hfresh⟩
  | rolled h source ih => exact ih.rolled ht source
  | restored h r hr ih => exact ih.restored hr

private theorem roll_congr {e first : Expression} (hformula : e.formula = first.formula)
    (hsettings : e.settings = first.settings) (hpass : (e.pass : RollM σ Pass) = first.pass) (source : σ) :
    match first.roll source with
    | ((.ok v, after), rest) => e.roll source = ((.ok v, after), rest)
    | ((.error why, after), rest) => e.roll source = ((.error why, { e with used := after.used }), rest) := by
  have heval := evaluated_congr hformula hsettings hpass
  rw [roll, roll, heval, hsettings, map_eq_pure_bind, runState_bind]
  cases first.evaluated.run.run (Cup.fill first.settings.maxRolls source) with
  | mk result cup =>
    cases result with
    | ok r => rfl
    | error why => rfl

/-- An expression that was rolled and restored in any way rolls as a fresh one does. After a value there is no
difference left between the two; a failure is the same failure, after as many dice. -/
theorem roll_of_reaches {text : String} {f : Formula} {settings : Settings} {e : Expression}
    (hread : Formula.read text = .ok f) (h : Reaches σ (ofFormula f settings) e) (source : σ) :
    match (ofFormula f settings).roll source with
    | ((.ok v, fresh), rest) => e.roll source = ((.ok v, fresh), rest)
    | ((.error why, fresh), rest) => e.roll source = ((.error why, { e with used := fresh.used }), rest) := by
  obtain ⟨t, rfl⟩ := Formula.exists_calculation_of_read hread
  have hserves := h.serves (t := t) rfl rfl
  have hfresh : Serves t (ofFormula ⟨text, t.tokens⟩ settings) (ofFormula ⟨text, t.tokens⟩ settings) :=
    ⟨rfl, rfl, .inl rfl⟩
  have hpass := (hserves.pass_eq (σ := σ) rfl).trans (hfresh.pass_eq rfl).symm
  exact roll_congr hserves.formula hserves.settings hpass source

/-- A die after a roll and a restored record. -/
theorem roll_of_reaches_d6 :
    let d6 : Formula := ⟨"d6", [⟨.dice 1 (.sided 6) [], ⟨0, 2⟩⟩]⟩
    let fresh := ofFormula d6 {}
    let rolled := (fresh.roll (Script.mk [3])).1.2
    let restored : Expression := { rolled with value := some (.whole 4), restored := some ⟨"d6\n[4]", none⟩ }
    Formula.read "d6" = .ok d6 ∧ Reaches Script fresh restored ∧
      restored.roll (Script.mk [5]) = fresh.roll (Script.mk [5]) := by
  intro d6 fresh rolled restored
  have hread : Formula.read "d6" = .ok d6 := rfl
  have hrolled : Reaches Script fresh rolled := Reaches.refl.rolled (Script.mk [3])
  have hreach : Reaches Script fresh restored :=
    hrolled.restored { kind := .expression, value := .number (.whole 4), trace := "d6\n[4]" } rfl
  exact ⟨hread, hreach, roll_of_reaches hread hreach (Script.mk [5])⟩

end Expression
end Tabletop
