import Tabletop.Roller

/-! Stored rolls. A record has in it all that a roller shows of its roll, so another roller of the same kind that
takes it over shows the same and stores the same. Taking over asks no source: it is a function of the roller and the
record alone. -/
namespace Tabletop

/-- All that a roller shows of its roll, and what it stores of it. -/
structure Roller.ShowsAs (after before : Roller) : Prop where
  value : after.value = before.value
  rendered : after.rendered = before.rendered
  trace : after.trace = before.trace
  fragment : after.fragment = before.fragment
  toRecord : after.toRecord = before.toRecord

namespace Expression
variable {e first : Expression}

private theorem rendered_congr (hvalue : e.value = first.value) (hstunt : e.stuntPoints? = first.stuntPoints?)
    (hrounding : e.settings.rounding = first.settings.rounding) : e.rendered = first.rendered := by
  rw [rendered, rendered, hvalue, hstunt, hrounding]

/-- What is shown depends on three things, and on the rounding. -/
theorem showsAs (hvalue : e.value = first.value) (htrace : e.trace = first.trace)
    (hstunt : e.stuntPoints? = first.stuntPoints?) (hrounding : e.settings.rounding = first.settings.rounding) :
    (Roller.part (.expression e)).ShowsAs (.part (.expression first)) where
  value := congrArg (·.map RollValue.number) hvalue
  rendered := rendered_congr hvalue hstunt hrounding
  trace := htrace
  fragment := by
    change e.fragment = first.fragment
    rw [fragment, fragment, htrace]
  toRecord := by
    change e.toRecord = first.toRecord
    rw [toRecord, toRecord, hvalue, htrace, hstunt]

/-- The stored value has all its digits, and so is shown alike where it is rounded alike. The groups stay those of the
second expression, but are not looked at. -/
theorem restore_toRecord (first second : Expression) {v : Number} (hvalue : first.value = some v)
    (hrounding : second.settings.rounding = first.settings.rounding) :
    ∃ after, second.restore first.toRecord = .ok after ∧
      (Roller.part (.expression after)).ShowsAs (.part (.expression first)) := by
  refine ⟨{ second with value := some v, restored := some ⟨first.trace, first.stuntPoints?⟩ }, ?_,
    showsAs hvalue.symm rfl rfl hrounding⟩
  rw [toRecord, hvalue]
  rfl

end Expression

namespace Table

theorem showsAs {t first : Table} (hresult : t.result = first.result) (htrace : t.trace = first.trace)
    (hfragment : t.fragment = first.fragment) : (Roller.part (.table t)).ShowsAs (.part (.table first)) := by
  have hrendered : t.rendered = first.rendered := by rw [rendered, rendered, hresult]
  refine ⟨congrArg (·.map RollValue.text) hresult, hrendered, htrace, hfragment, ?_⟩
  change t.toRecord = first.toRecord
  rw [toRecord, toRecord, hrendered, htrace, hfragment]

private theorem restore_toRecord (first second : Table) {s : String} (hresult : first.result = some s) :
    ∃ after, second.restore first.toRecord = .ok after ∧
      (Roller.part (.table after)).ShowsAs (.part (.table first)) := by
  refine ⟨{ second with result := some s, trace := first.trace, fragment := first.fragment }, ?_,
    showsAs hresult.symm rfl rfl⟩
  rw [toRecord, rendered, hresult]
  rfl

end Table

namespace Batch

theorem showsAs {b first : Batch} (hresult : b.result = first.result) (htrace : b.trace = first.trace)
    (hfragment : b.fragment = first.fragment) : (Roller.batch b).ShowsAs (.batch first) := by
  have hrendered : b.rendered = first.rendered := by rw [rendered, rendered, hresult]
  refine ⟨congrArg (·.map RollValue.text) hresult, hrendered, htrace, hfragment, ?_⟩
  change b.toRecord = first.toRecord
  rw [toRecord, toRecord, hrendered, htrace, hfragment]

private theorem restore_toRecord (first second : Batch) {s : String} (hresult : first.result = some s) :
    ∃ after, second.restore first.toRecord = .ok after ∧ (Roller.batch after).ShowsAs (.batch first) := by
  refine ⟨{ second with result := some s, restored := some (first.trace, first.fragment) }, ?_,
    showsAs hresult.symm rfl rfl⟩
  rw [toRecord, rendered, hresult]
  rfl

end Batch

namespace Roller

private theorem restore_expression {e after : Expression} {r : Record} (h : e.restore r = .ok after) :
    (part (.expression e)).restore r = .ok (part (.expression after)) := by
  rw [restore, Part.restore, h]
  rfl

private theorem restore_table {t after : Table} {r : Record} (h : t.restore r = .ok after) :
    (part (.table t)).restore r = .ok (part (.table after)) := by
  rw [restore, Part.restore, h]
  rfl

private theorem restore_batch {b after : Batch} {r : Record} (h : b.restore r = .ok after) :
    (batch b).restore r = .ok (batch after) := by
  rw [restore, h]
  rfl

/-- The record of any roller that has a value, whatever was rolled and restored before, is taken over by every other
roller of its kind, whatever that one holds. The two then show the same, and the record of the second is the one that
it was given. Expressions have to round alike. -/
theorem replay (first second : Roller) (hvalue : first.value ≠ none) (hkind : second.kind = first.kind)
    (hrounding : ∀ e ∈ first.expression?, ∀ e' ∈ second.expression?, e'.settings.rounding = e.settings.rounding) :
    ∃ after, second.restore first.toRecord = .ok after ∧ after.ShowsAs first := by
  rcases first with (e | t) | b <;> rcases second with (e' | t') | b' <;> cases hkind
  · obtain ⟨v, hv⟩ := Option.ne_none_iff_exists'.1 fun hnone => hvalue (congrArg (·.map RollValue.number) hnone)
    obtain ⟨after, hafter, hshows⟩ := e.restore_toRecord e' hv (hrounding e rfl e' rfl)
    exact ⟨_, restore_expression hafter, hshows⟩
  · obtain ⟨s, hs⟩ := Option.ne_none_iff_exists'.1 fun hnone => hvalue (congrArg (·.map RollValue.text) hnone)
    obtain ⟨after, hafter, hshows⟩ := t.restore_toRecord t' hs
    exact ⟨_, restore_table hafter, hshows⟩
  · obtain ⟨s, hs⟩ := Option.ne_none_iff_exists'.1 fun hnone => hvalue (congrArg (·.map RollValue.text) hnone)
    obtain ⟨after, hafter, hshows⟩ := b.restore_toRecord b' hs
    exact ⟨_, restore_batch hafter, hshows⟩

/-- A stunt pool that was never rolled takes over the roll of a die. -/
theorem replay_d6 :
    let d6 : Formula := ⟨"d6", [⟨.dice 1 (.sided 6) [], ⟨0, 2⟩⟩]⟩
    let first : Roller := .part (.expression ((Expression.ofFormula d6 {}).roll (Script.mk [3])).1.2)
    let second : Roller := .part (.expression (Expression.ofFormula ⟨"stunt", [⟨.stunt, ⟨0, 5⟩⟩]⟩ {}))
    first.value = some (.number (.whole 3)) ∧ second.kind = first.kind ∧ second.trace = "stunt\nstunt" ∧
      ∃ after, second.restore first.toRecord = .ok after ∧ after.ShowsAs first ∧ after.trace = "d6\n[3]" := by
  intro d6 first second
  have hfirst : first.value = some (.number (.whole 3)) := rfl
  have hvalue : first.value ≠ none := by
    rw [hfirst]
    exact nofun
  have hrounding : ∀ e ∈ first.expression?, ∀ e' ∈ second.expression?,
      e'.settings.rounding = e.settings.rounding := by
    intro e he e' he'
    cases he
    cases he'
    rfl
  obtain ⟨after, hafter, hshows⟩ := replay first second hvalue rfl hrounding
  have htrace : first.trace = "d6\n[3]" := by decide +kernel
  exact ⟨hfirst, rfl, rfl, after, hafter, hshows, hshows.trace.trans htrace⟩

end Roller
end Tabletop
