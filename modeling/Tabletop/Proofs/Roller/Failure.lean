import Tabletop.Proofs.Table.Failure

/-! What a roll that fails leaves behind. An expression and a table show what they showed before. Several parts are
rolled from the left up to the one that fails, and those before it keep their new rolls, while the value is still the
old one. -/
namespace Tabletop
variable {σ α β : Type}

namespace Part
variable [RandomSource σ]

/-- A part that fails shows what it showed before. -/
theorem showsAs_of_error {p : Part} {nested : Nested σ} {source : σ} {why : RollError}
    (h : (p.roll nested source).1.1 = .error why) :
    (Roller.part (p.roll nested source).1.2).ShowsAs (.part p) := by
  cases p with
  | expression e =>
    have herror : (e.roll source).1.1 = .error why := by
      change (e.roll source).1.1.map RollValue.number = .error why at h
      revert h
      cases (e.roll source).1.1 with
      | ok v => exact nofun
      | error _ => exact fun h => congrArg _ (Except.error.inj h)
    change (Roller.part (.expression (e.roll source).1.2)).ShowsAs _
    rw [Expression.roll_of_error herror]
    exact ⟨rfl, rfl, rfl, rfl, rfl⟩
  | table t =>
    cases nested with
    | error _ => exact ⟨rfl, rfl, rfl, rfl, rfl⟩
    | ok roll =>
      have hfrom : t.RollsFrom (t.roll roll source).1.2 := Table.roll_of_error h
      exact Table.showsAs hfrom.result hfrom.trace hfrom.fragment

end Part

theorem runSource_bind (m : StateM σ α) (f : α → StateM σ β) (source : σ) :
    (m >>= f) source = f (m source).1 (m source).2 := rfl

namespace Batch
variable [RandomSource σ]

private theorem rollParts_cons_of_ok {nested : Nested σ} {p p' : Part} {source mid : σ} {v : RollValue}
    (hp : p.roll nested source = ((.ok v, p'), mid)) (parts : List Part) :
    rollParts nested (p :: parts) source =
      let rest := rollParts nested parts mid
      ((rest.1.1, p' :: rest.1.2), rest.2) := by
  rw [rollParts, runSource_bind, hp]
  rfl

private theorem rollParts_cons_of_error {nested : Nested σ} {p p' : Part} {source mid : σ} {why : RollError}
    (hp : p.roll nested source = ((.error why, p'), mid)) (parts : List Part) :
    rollParts nested (p :: parts) source = ((.error why, p' :: parts), mid) := by
  rw [rollParts, runSource_bind, hp]
  rfl

/-- A failure divides the parts: those rolled anew, the one that failed, and those not reached. -/
theorem rollParts_of_error {nested : Nested σ} {parts : List Part} {source : σ} {why : RollError}
    (h : (rollParts nested parts source).1.1 = .error why) :
    ∃ done rolled p todo mid, parts = done ++ p :: todo ∧
      rollParts nested done source = ((.ok (), rolled), mid) ∧ (p.roll nested mid).1.1 = .error why ∧
      (rollParts nested parts source).1.2 = rolled ++ (p.roll nested mid).1.2 :: todo := by
  induction parts generalizing source with
  | nil => exact absurd h nofun
  | cons p parts ih =>
    cases hp : p.roll nested source with
    | mk result mid =>
      obtain ⟨outcome, p'⟩ := result
      cases outcome with
      | error _ =>
        have hrun := rollParts_cons_of_error hp parts
        rw [hrun] at h ⊢
        cases h
        exact ⟨[], [], p, parts, source, rfl, rfl, by rw [hp], by rw [hp]; rfl⟩
      | ok v =>
        have hrun := rollParts_cons_of_ok hp parts
        rw [hrun] at h ⊢
        obtain ⟨done, rolled, q, todo, mid', rfl, hdone, hfailed, hafter⟩ := ih h
        refine ⟨p :: done, p' :: rolled, q, todo, mid', rfl, ?_, hfailed, congrArg (p' :: ·) hafter⟩
        rw [rollParts_cons_of_ok hp, hdone]

private theorem roll_of_error {nested : Nested σ} {b : Batch} {source : σ} {why : RollError}
    (h : (b.roll nested source).1.1 = .error why) :
    (rollParts nested b.parts source).1.1 = .error why ∧
      (b.roll nested source).1.2 = { b with parts := (rollParts nested b.parts source).1.2 } := by
  revert h
  rw [roll, runSource_bind]
  cases rollParts nested b.parts source with
  | mk result rest =>
    obtain ⟨outcome, parts⟩ := result
    cases outcome with
    | ok _ => exact nofun
    | error _ => exact fun h => ⟨congrArg _ (Except.error.inj h), rfl⟩

/-- A roll of several parts that fails keeps its value, and a record that is shown in place of a roll stays shown.
The parts are divided at the one that failed: those before it have new rolls, and it and those behind it show what
they showed. Where no record is shown, the trace afterwards is that of the parts as they now are, and so of two
rolls. -/
theorem roll_stopped (nested : Nested σ) (b : Batch) (source : σ) (why : RollError)
    (h : (b.roll nested source).1.1 = .error why) :
    let after := (b.roll nested source).1.2
    ((Roller.batch after).value = (Roller.batch b).value ∧ after.rendered = b.rendered) ∧
      (b.restored ≠ none → (Roller.batch after).ShowsAs (.batch b)) ∧
      ∃ done rolled p todo mid, b.parts = done ++ p :: todo ∧
        rollParts nested done source = ((.ok (), rolled), mid) ∧ (p.roll nested mid).1.1 = .error why ∧
        after.parts = rolled ++ (p.roll nested mid).1.2 :: todo ∧
        (Roller.part (p.roll nested mid).1.2).ShowsAs (.part p) ∧
        (b.restored = none →
          after.fragment = " ;".intercalate ((rolled ++ p :: todo).map Part.fragment) ∧
            after.trace = Text.outline after.fragment) := by
  intro after
  obtain ⟨herror, hafter⟩ := roll_of_error h
  obtain ⟨done, rolled, p, todo, mid, hparts, hdone, hfailed, hleft⟩ := rollParts_of_error herror
  have hshows := Part.showsAs_of_error hfailed
  have hresult : after.result = b.result := by
    change (b.roll nested source).1.2.result = _
    rw [hafter]
  have hrestored : after.restored = b.restored := by
    change (b.roll nested source).1.2.restored = _
    rw [hafter]
  have hnow : after.parts = rolled ++ (p.roll nested mid).1.2 :: todo := (congrArg Batch.parts hafter).trans hleft
  refine ⟨⟨congrArg (·.map RollValue.text) hresult, congrArg (·.getD "") hresult⟩, fun hsome => ?_,
    done, rolled, p, todo, mid, hparts, hdone, hfailed, hnow, hshows, fun hnone => ⟨?_, ?_⟩⟩
  · obtain ⟨record, hrecord⟩ := Option.ne_none_iff_exists'.1 hsome
    refine showsAs hresult ?_ ?_
    · rw [trace, trace, hrestored, hrecord]
    · rw [fragment, fragment, hrestored, hrecord]
  · have hfragment : (p.roll nested mid).1.2.fragment = p.fragment := hshows.fragment
    rw [fragment, hrestored, hnone, hnow, List.map_append, List.map_append, List.map_cons, List.map_cons, hfragment]
  · rw [trace, hrestored, hnone]

/-- A die, and a division that fails where it rolls a zero. -/
def dieAndDivision : Batch where
  text := "1d6;1/d[0,1]"
  parts := [
    .expression (.ofFormula ⟨"1d6", [⟨.dice 1 (.sided 6) [], ⟨0, 3⟩⟩]⟩ {}),
    .expression (.ofFormula ⟨"1/d[0,1]", [⟨.number (.whole 1), ⟨0, 1⟩⟩, ⟨.dice 1 (.between 0 1) [], ⟨2, 8⟩⟩,
      ⟨.operator .div, ⟨1, 2⟩⟩]⟩ {})]

/-- Rolled once with success, and once more with a zero: one new part and one old one. -/
theorem roll_stopped_dieAndDivision :
    let nested : Nested Script := .error (.recursionLimit 0)
    let once := (dieAndDivision.roll nested (Script.mk [3, 1])).1.2
    let again := (once.roll nested (Script.mk [5, 0])).1.2
    (once.roll nested (Script.mk [5, 0])).1.1 = .error .zeroDivision ∧
      (Roller.batch again).value = (Roller.batch once).value ∧ again.rendered = once.rendered := by
  intro nested once again
  have hfailed : (once.roll nested (Script.mk [5, 0])).1.1 = .error .zeroDivision := by decide +kernel
  obtain ⟨⟨hvalue, hrendered⟩, -, -⟩ := roll_stopped nested once (Script.mk [5, 0]) .zeroDivision hfailed
  exact ⟨hfailed, hvalue, hrendered⟩

/-- The failure changes what is shown of the roll before, but not the value it is shown with. -/
theorem roll_changes_trace :
    let nested : Nested Script := .error (.recursionLimit 0)
    let once := (dieAndDivision.roll nested (Script.mk [3, 1])).1.2
    let again := (once.roll nested (Script.mk [5, 0])).1.2
    (once.roll nested (Script.mk [5, 0])).1.1 = .error .zeroDivision ∧
      once.rendered = "3, 1" ∧ again.rendered = "3, 1" ∧
      once.trace = "1d6 --> [3] ,\n1/d[0,1] --> 1/[1]" ∧ again.trace = "1d6 --> [5] ,\n1/d[0,1] --> 1/[1]" ∧
      again.fragment ≠ once.fragment ∧ again.toRecord.trace ≠ once.toRecord.trace := by
  decide +kernel

end Batch
end Tabletop
