import Tabletop.Proofs.Dice.Averages
import Tabletop.Proofs.Expression.InPlace
import Tabletop.Proofs.Expression.Evaluation
import Tabletop.Proofs.Roller.Replay

/-! Rolling for averages. The dice are rolled first and then overwritten with averages, and the modifiers work on those.
Where no modifier rolls an average again, nothing that was rolled is left in the result: it is a function of the formula
alone. -/
namespace Tabletop
open Expression (Pass)

section Groups

/-- Groups, the latest first, once a token more is read. -/
def PlacedToken.place (gs : List PlacedGroup) (t : PlacedToken) : List PlacedGroup :=
  match t.token with
  | .modifier m conditions =>
    match gs with
    | [] => []
    | g :: rest => g.attach ⟨m, conditions, t.span⟩ :: rest
  | .number value => if t.span.isEmpty then gs else ⟨.literal { value }, t.span⟩ :: gs
  | token =>
    match Expression.groupOf? token with
    | some group => ⟨group, t.span⟩ :: gs
    | none => gs

/-- The groups of a formula before its first roll, from the left. -/
def Formula.groups (f : Formula) : List PlacedGroup := (f.tokens.foldl PlacedToken.place []).reverse

private theorem foldl_place_modifiers (ms : List PlacedModifier) (g : PlacedGroup) (gs : List PlacedGroup) :
    (ms.map PlacedModifier.token).foldl PlacedToken.place (g :: gs) = ms.foldl PlacedGroup.attach g :: gs := by
  induction ms generalizing g with
  | nil => rfl
  | cons m ms ih => exact ih (g.attach m)

private theorem Operand.place_token (o : Operand) (gs : List PlacedGroup) :
    o.token.place gs = ⟨o.group, o.token.span⟩ :: gs := by
  cases o with
  | number value span visible => simp [token, PlacedToken.place, visible, group]
  | dice | percentile | stunt => rfl

private theorem Calculation.foldl_place (t : Calculation) (gs : List PlacedGroup) :
    t.tokens.foldl PlacedToken.place gs = t.groups.reverse ++ gs := by
  induction t generalizing gs with
  | literal value span invisible => simp [tokens, PlacedToken.place, invisible, groups]
  | group o ms =>
    rw [tokens, List.foldl_cons, Operand.place_token, foldl_place_modifiers]
    rfl
  | binary op sign l r ihl ihr =>
    simp [tokens, ihl, ihr, groups, PlacedToken.place, Expression.groupOf?]

private theorem Calculation.groups_tokens (text : String) (t : Calculation) :
    (Formula.mk text t.tokens).groups = t.groups := by
  rw [Formula.groups, t.foldl_place, List.append_nil, List.reverse_reverse]

end Groups

/-- A group with averages for its rolls. -/
def PlacedGroup.settled (g : PlacedGroup) : PlacedGroup := { g with group := g.group.settled }

/-- Averages may stand in for the rolls of a group, and no modifier rolls over them. -/
def PlacedGroup.Settles (g : PlacedGroup) : Prop := g.group.supportsAverage = true ∧ g.group.spared = true

private theorem PlacedGroup.settles_bare {g : PlacedGroup} : g.bare.Settles ↔ g.Settles := by
  obtain ⟨group, span⟩ := g
  cases group <;> exact Iff.rfl

private theorem PlacedGroup.settled_bare {g : PlacedGroup} (h : g.Settles) : g.bare.settled = g.settled := by
  rw [settled, settled, bare, DiceGroup.settled_bare h.1]

/-- Groups that differ in what was rolled settle alike. -/
theorem settles_of_bare_eq {gs hs : List PlacedGroup} (hbare : gs.map PlacedGroup.bare = hs.map PlacedGroup.bare)
    (h : ∀ g ∈ hs, g.Settles) : (∀ g ∈ gs, g.Settles) ∧ gs.map PlacedGroup.settled = hs.map PlacedGroup.settled := by
  have hall : ∀ g ∈ gs.map PlacedGroup.bare, g.Settles := by
    rw [hbare]
    exact List.forall_mem_map.2 fun g hg => PlacedGroup.settles_bare.2 (h g hg)
  have hgs : ∀ g ∈ gs, g.Settles := fun g hg => PlacedGroup.settles_bare.1 (hall _ (List.mem_map_of_mem hg))
  refine ⟨hgs, ?_⟩
  calc gs.map PlacedGroup.settled
    _ = (gs.map PlacedGroup.bare).map PlacedGroup.settled := by
      rw [List.map_map]
      exact List.map_congr_left fun g hg => (PlacedGroup.settled_bare (hgs g hg)).symm
    _ = (hs.map PlacedGroup.bare).map PlacedGroup.settled := by rw [hbare]
    _ = hs.map PlacedGroup.settled := by
      rw [List.map_map]
      exact List.map_congr_left fun g hg => PlacedGroup.settled_bare (h g hg)

/-- Whether a number is a certain whole one can be told, and of no other number. -/
instance Number.decidableEqWhole (x : Number) (n : Int64) : Decidable (x = .whole n) :=
  match x with
  | .whole m => decidable_of_iff (m = n) ⟨congrArg _, Number.whole.inj⟩
  | .float _ => .isFalse nofun

instance Except.decidableEqWhole (r : Except RollError Number) (n : Int64) : Decidable (r = .ok (.whole n)) :=
  match r with
  | .ok x => decidable_of_iff (x = .whole n) ⟨congrArg _, Except.ok.inj⟩
  | .error _ => .isFalse nofun

namespace Expression
variable {σ : Type} [RandomSource σ]

private theorem averaged_eq {g : PlacedGroup} (h : g.Settles) :
    (g.averaged : RollM σ PlacedGroup) = pure g.settled := by
  obtain ⟨group, span⟩ := g
  cases group with
  | literal l => rfl
  | pool p =>
    change (return ⟨← (DiceGroup.pool p.averages).reapply, span⟩ : RollM σ PlacedGroup) = _
    rw [DiceGroup.reapply_averages h.2]
    rfl
  | percentile | stunt => cases h.1

/-- The second rolling, of averages, rolls nothing. -/
theorem substituteAverages_eq {gs : List PlacedGroup} (h : ∀ g ∈ gs, g.Settles) :
    (substituteAverages gs : RollM σ _) = pure (gs.map PlacedGroup.settled) := by
  change gs.mapM PlacedGroup.averaged = _
  induction gs with
  | nil => rfl
  | cons g gs ih =>
    rw [List.mapM_cons, averaged_eq (h g List.mem_cons_self), pure_bind,
      ih fun x hx => h x (List.mem_cons_of_mem g hx), pure_bind, List.map_cons]

/-- A tree rolled for averages, with the groups as they settle. -/
def settled (t : Calculation) (text : String) (settings : Settings) (v : Number) : Expression :=
  { ofFormula ⟨text, t.tokens⟩ settings with
    groups := t.groups.map PlacedGroup.settled, program := t.instructions 0, value := some v, averaged := true }

/-- Whatever is rolled on the way, a tree whose groups settle comes to the value that it has for them. -/
theorem evaluated_ends_settled {t : Calculation} (text : String) {settings : Settings}
    (hmode : settings.mode = .average) (h : ∀ g ∈ t.groups, g.Settles) :
    ((ofFormula ⟨text, t.tokens⟩ settings).evaluated : RollM σ _).Ends
      (fun r => ∃ v, t.value (totalOf (t.groups.map PlacedGroup.settled)) 0 = .ok v ∧
        r = (settled t text settings v.floor, v.floor)) fun _ => True := by
  have hpass := pass_eq (σ := σ) (e := ofFormula ⟨text, t.tokens⟩ settings) rfl (.inl ⟨rfl, rfl, rfl⟩)
  have hrolled := (rollGroups_ends (σ := σ) t.rollOrder t.groups).mono (fun _ => id) fun _ _ => trivial
  have hlength : (t.groups.map PlacedGroup.settled).length = t.size := by rw [List.length_map, t.length_groups]
  rw [evaluated, hpass, bind_map_left]
  refine hrolled.bind fun gs hgs => (RollM.Ends.any _).bind fun w _ => ?_
  obtain ⟨hsettles, hsame⟩ := settles_of_bare_eq hgs h
  have hall : gs.all (·.group.supportsAverage) = true := List.all_eq_true.2 fun g hg => (hsettles g hg).1
  dsimp only
  rw [if_pos ⟨hmode, hall⟩, substituteAverages_eq hsettles, pure_bind, hsame, List.reverse_reverse,
    Instruction.run_instructions t _ hlength]
  cases t.value (totalOf (t.groups.map PlacedGroup.settled)) 0 with
  | ok v => exact .pure ⟨v, rfl, rfl⟩
  | error why => exact .throw trivial

/-- A roll of such a tree that succeeds leaves the averages, and nothing of what was rolled but the count. -/
theorem roll_settled {t : Calculation} {text : String} {settings : Settings} (hmode : settings.mode = .average)
    (h : ∀ g ∈ t.groups, g.Settles) {source : σ} {v : Number}
    (hv : ((ofFormula ⟨text, t.tokens⟩ settings).roll source).1.1 = .ok v) :
    ∃ w used, t.value (totalOf (t.groups.map PlacedGroup.settled)) 0 = .ok w ∧ v = w.floor ∧
      ((ofFormula ⟨text, t.tokens⟩ settings).roll source).1.2 = { settled t text settings w.floor with used } := by
  obtain ⟨r, used, ⟨w, hw, rfl⟩, hroll⟩ | ⟨why, used, -, hroll⟩ :=
    roll_cases (evaluated_ends_settled text hmode h) source
  · rw [hroll] at hv
    cases hv
    exact ⟨w, used, hw, rfl, congrArg Prod.snd hroll⟩
  · rw [hroll] at hv
    cases hv

/-- Where every group of a formula has an average and no modifier rolls over it, nothing rolled is left in the result.
Two rolls that both succeed, whatever their sources are and answer, have the same value and show the same, and their
groups are what the formula alone makes of the averages. -/
theorem roll_average {text : String} {f : Formula} {settings : Settings} (hread : Formula.read text = .ok f)
    (hmode : settings.mode = .average) (haverage : ∀ g ∈ f.groups, g.group.supportsAverage = true)
    (hspared : ∀ g ∈ f.groups, g.group.spared = true) {σ₁ σ₂ : Type} [RandomSource σ₁] [RandomSource σ₂]
    (source₁ : σ₁) (source₂ : σ₂) {v₁ v₂ : Number}
    (hfirst : ((ofFormula f settings).roll source₁).1.1 = .ok v₁)
    (hsecond : ((ofFormula f settings).roll source₂).1.1 = .ok v₂) :
    let after₁ := ((ofFormula f settings).roll source₁).1.2
    let after₂ := ((ofFormula f settings).roll source₂).1.2
    v₁ = v₂ ∧ (Roller.part (.expression after₁)).ShowsAs (.part (.expression after₂)) ∧
      after₁.groups = f.groups.map PlacedGroup.settled ∧ after₂.groups = f.groups.map PlacedGroup.settled := by
  obtain ⟨t, rfl⟩ := Formula.exists_calculation_of_read hread
  rw [t.groups_tokens] at haverage hspared ⊢
  have hsettles : ∀ g ∈ t.groups, g.Settles := fun g hg => ⟨haverage g hg, hspared g hg⟩
  obtain ⟨w, used₁, hw, rfl, hafter₁⟩ := roll_settled hmode hsettles hfirst
  obtain ⟨w', used₂, hw', rfl, hafter₂⟩ := roll_settled hmode hsettles hsecond
  obtain rfl : w = w' := Except.ok.inj (hw.symm.trans hw')
  intro after₁ after₂
  have hshows : (Roller.part (.expression after₁)).ShowsAs (.part (.expression after₂)) := by
    rw [show after₁ = _ from hafter₁, show after₂ = _ from hafter₂]
    exact showsAs rfl rfl rfl rfl
  exact ⟨rfl, hshows, congrArg groups hafter₁, congrArg groups hafter₂⟩

/-- The three highest of four dice, and a die that is rolled again when it shows a one. -/
def bestAndReroll : Formula where
  text := "4d6kh3+1d4r"
  tokens := [⟨.dice 4 (.sided 6) [], ⟨0, 3⟩⟩, ⟨.modifier (.keepHigh 3) [], ⟨3, 6⟩⟩, ⟨.dice 1 (.sided 4) [], ⟨7, 10⟩⟩,
    ⟨.modifier (.reroll (.times 1)) [], ⟨10, 11⟩⟩, ⟨.operator .add, ⟨6, 7⟩⟩]

/-- On the way, the last die is rolled again with one source and not with the other. -/
theorem roll_average_bestAndReroll :
    ((ofFormula bestAndReroll { mode := .average }).roll (Script.mk [6, 4, 3, 2, 1, 4])).1.2.trace =
        "4d6kh3+1d4r\naverage: [3.5, 3.5, 3.5, 3.5d]+[2.5]" ∧
      (Roller.part (.expression ((ofFormula bestAndReroll { mode := .average }).roll
        (Script.mk [6, 4, 3, 2, 1, 4])).1.2)).ShowsAs
      (.part (.expression ((ofFormula bestAndReroll { mode := .average }).roll (Script.mk [1, 1, 1, 1, 2])).1.2)) := by
  have hread : Formula.read "4d6kh3+1d4r" = .ok bestAndReroll := rfl
  have haverage : ∀ g ∈ bestAndReroll.groups, g.group.supportsAverage = true := by decide +kernel
  have hspared : ∀ g ∈ bestAndReroll.groups, g.group.spared = true := by decide +kernel
  have hfirst : ((ofFormula bestAndReroll { mode := .average }).roll (Script.mk [6, 4, 3, 2, 1, 4])).1.1 =
      .ok (.whole 13) := by decide +kernel
  have hsecond : ((ofFormula bestAndReroll { mode := .average }).roll (Script.mk [1, 1, 1, 1, 2])).1.1 =
      .ok (.whole 13) := by decide +kernel
  have htrace : ((ofFormula bestAndReroll { mode := .average }).roll (Script.mk [6, 4, 3, 2, 1, 4])).1.2.trace =
      "4d6kh3+1d4r\naverage: [3.5, 3.5, 3.5, 3.5d]+[2.5]" := by decide +kernel
  exact ⟨htrace, (roll_average hread rfl haverage hspared _ _ hfirst hsecond).2.1⟩

/-- A die that is rolled again above three, as its average is. -/
def rerollAboveThree : Formula where
  text := "1d6r>3"
  tokens := [⟨.dice 1 (.sided 6) [], ⟨0, 3⟩⟩,
    ⟨.modifier (.reroll (.times 1)) [⟨.greater, .whole 3⟩], ⟨3, 6⟩⟩]

/-- A modifier that rolls over the average lets the source through, to the value and to the trace, which is marked as
one of averages all the same. -/
theorem roll_average_leaks :
    Formula.read "1d6r>3" = .ok rerollAboveThree ∧
      (∀ g ∈ rerollAboveThree.groups, g.group.supportsAverage = true) ∧
      ((ofFormula rerollAboveThree { mode := .average }).roll (Script.mk [1, 2])).1.1 = .ok (.whole 2) ∧
      ((ofFormula rerollAboveThree { mode := .average }).roll (Script.mk [1, 5])).1.1 = .ok (.whole 5) ∧
      ((ofFormula rerollAboveThree { mode := .average }).roll (Script.mk [1, 2])).1.2.trace =
        "1d6r>3\naverage: [2r]" ∧
      ((ofFormula rerollAboveThree { mode := .average }).roll (Script.mk [1, 5])).1.2.trace =
        "1d6r>3\naverage: [5r]" := by
  refine ⟨rfl, ?_, ?_, ?_, ?_, ?_⟩
  all_goals decide +kernel

end Expression
end Tabletop
