import Tabletop.Proofs.Expression.Evaluation
import Tabletop.Proofs.Expression.Following

/-! Well formed token lists are those that have a value but for the limit of rolls and divisions by zero. All
that is read is well formed. -/
namespace Tabletop
open Expression (Pass)

namespace Expression
variable {σ : Type} [RandomSource σ]

private theorem pass_ends (e : Expression) :
    (e.pass : RollM σ Pass).Ends (Follows (e.formula.tokens.foldlM Scan.step .start))
      (fun why => WellFormed e.formula.tokens → AtLimit why) := by
  rw [pass]
  have hloop := (Follows.start e.groups).foldlM_step_ends (σ := σ) e.groups.length e.formula.tokens
  refine (hloop.mono (fun _ => id) fun why hwhy hwell => hwhy ?_).bind fun p hp => hp.finish_ends
  obtain ⟨s, hs, -⟩ := Option.map_eq_some_iff.1 hwell
  exact Option.isSome_of_eq_some hs

/-- Only a well formed list has a value, and on one only the limit of rolls or a division can fail. -/
theorem evaluated_ends (e : Expression) :
    (e.evaluated : RollM σ _).Ends (fun _ => WellFormed e.formula.tokens)
      (fun why => WellFormed e.formula.tokens → why = .tooManyRolls ∨ why = .zeroDivision) := by
  rw [evaluated]
  refine (e.pass_ends.mono (fun _ => id) fun why hwhy hwell => .inl (hwhy hwell)).bind fun p hp => ?_
  have hrun : ∀ gs : List PlacedGroup, gs.length = p.groups.length →
      (liftM (Instruction.run gs p.program.reverse) : RollM σ Number).Ends (fun _ => WellFormed e.formula.tokens)
        (fun why => WellFormed e.formula.tokens → why = .tooManyRolls ∨ why = .zeroDivision) := by
    intro gs hgs
    have hknown : ∀ k, .group k ∈ p.program.reverse → k < gs.length := fun k hk =>
      hgs ▸ hp.known k (List.mem_reverse.1 hk)
    have hended := Instruction.run_ended hknown
    rw [hp.heights] at hended
    exact (RollM.Ends.lift hended).mono (fun _ => id) fun why hwhy hwell => .inr (hwhy hwell)
  refine (hrun p.groups rfl).bind fun v hwell => ?_
  dsimp only
  split
  · refine ((substituteAverages_ends p.groups).mono (fun _ => id) fun _ hwhy _ => .inl hwhy).bind fun gs hgs => ?_
    have hlen : gs.length = p.groups.length := by simpa using congrArg List.length hgs
    exact (hrun gs hlen).bind fun _ _ => .pure hwell
  · exact .pure hwell

end Expression

namespace Calculation

private theorem scan_modifiers (ms : List PlacedModifier) (s : Scan) (h : s.grouped = true) :
    (ms.map PlacedModifier.token).foldlM Scan.step s = some s := by
  induction ms with
  | nil => rfl
  | cons m ms ih =>
    have hm : s.step m.token = some s := if_pos h
    rw [List.map_cons, List.foldlM_cons, hm]
    exact ih

/-- A scan over the tokens of a tree leaves one more operand. -/
theorem scan_tokens (t : Calculation) (s : Scan) :
    ∃ grouped, t.tokens.foldlM Scan.step s = some ⟨s.height + 1, grouped⟩ := by
  induction t generalizing s with
  | literal value span invisible => exact ⟨_, rfl⟩
  | group o ms =>
    have ho : s.step o.token = some (s.push true) := by
      cases o with
      | number value span visible => simp [Scan.step, Operand.token, visible]
      | dice | percentile | stunt => rfl
    refine ⟨true, ?_⟩
    rw [tokens, List.foldlM_cons, ho]
    exact scan_modifiers ms _ rfl
  | binary op sign l r ihl ihr =>
    obtain ⟨a, hl⟩ := ihl s
    obtain ⟨b, hr⟩ := ihr ⟨s.height + 1, a⟩
    refine ⟨b, ?_⟩
    rw [tokens, List.foldlM_append, List.foldlM_append, hl, Option.bind_eq_bind, Option.bind_some, hr]
    rfl

private theorem wellFormed_tokens (t : Calculation) : WellFormed t.tokens := by
  obtain ⟨grouped, h⟩ := t.scan_tokens .start
  rw [WellFormed, h]
  rfl

end Calculation

private theorem Formula.wellFormed_of_read {text : String} {f : Formula} (h : read text = .ok f) :
    WellFormed f.tokens := by
  obtain ⟨t, rfl⟩ := exists_calculation_of_read h
  exact t.wellFormed_tokens

namespace Expression
variable {σ : Type} [RandomSource σ]

/-- Rolled for the first time or again, malformed tokens give no value. Well formed ones, and with them all that
can be read, fail at the limit of rolls or by a division and in no other way. -/
theorem roll_wellFormed (e : Expression) (source : σ) :
    (∀ v, (e.roll source).1.1 = .ok v → WellFormed e.formula.tokens) ∧
    (WellFormed e.formula.tokens →
      ∀ why, (e.roll source).1.1 = .error why → why = .tooManyRolls ∨ why = .zeroDivision) ∧
    ∀ text f, Formula.read text = .ok f → WellFormed f.tokens := by
  refine ⟨fun v hv => ?_, fun hwell why hwhy => ?_, fun text f => Formula.wellFormed_of_read⟩
  · obtain ⟨r, used, hwell, -⟩ | ⟨why, used, -, hroll⟩ := roll_cases e.evaluated_ends source
    · exact hwell
    · cases hroll ▸ hv
  · obtain ⟨r, used, -, hroll⟩ | ⟨why', used, hbad, hroll⟩ := roll_cases e.evaluated_ends source
    · cases hroll ▸ hwhy
    · cases hroll ▸ hwhy
      exact hbad hwell

/-- One die, without and with a limit that forbids it. -/
theorem roll_wellFormed_d6 :
    let d6 : Formula := ⟨"d6", [⟨.dice 1 (.sided 6) [], ⟨0, 2⟩⟩]⟩
    let unlimited := ((ofFormula d6 {}).roll (Script.mk [3])).1.1
    let limited := ((ofFormula d6 { maxRolls := some 0 }).roll (Script.mk [3])).1.1
    (unlimited = .ok (.whole 3) ∧ WellFormed d6.tokens) ∧
      (limited = .error .tooManyRolls ∧
        ∀ why, limited = .error why → why = .tooManyRolls ∨ why = .zeroDivision) ∧
      Formula.read "d6" = .ok d6 ∧ WellFormed d6.tokens := by
  intro d6 unlimited limited
  have hread : Formula.read "d6" = .ok d6 := rfl
  have hok := roll_wellFormed (ofFormula d6 {}) (Script.mk [3])
  have hlimit := roll_wellFormed (ofFormula d6 { maxRolls := some 0 }) (Script.mk [3])
  have hwell : WellFormed d6.tokens := hok.1 (.whole 3) rfl
  exact ⟨⟨rfl, hwell⟩, ⟨rfl, hlimit.2.1 hwell⟩, hread, hok.2.2 "d6" d6 hread⟩

end Expression
end Tabletop
