import Tabletop.Engine
import Tabletop.Proofs.Expression.Evaluation
import Tabletop.Proofs.Expression.InPlace
import Tabletop.Proofs.Roller.Replay

/-! What a roll of a table leaves when it fails. All that is shown of the roll before stays, and so do the rows. The
list of advisories does not: it is emptied when a roll starts, so after a failure the advisories of the failed roll
stand beside the value of the one before. -/
namespace Tabletop
variable {σ α β : Type}

/-- What rolls do not change about a lookup. -/
def Lookup.fixed (l : Lookup) : Formula × Settings × List LookupRange :=
  (l.formula.formula, l.formula.settings, l.ranges)

/-- A table whose roll is under way, seen from the table before it. Of the table itself only the state of its lookup
formula and the advisories are written to, and the advisories are misses of that formula. -/
structure Table.RollsFrom (before t : Table) : Prop where
  text : t.text = before.text
  reference : t.reference = before.reference
  pool : t.pool = before.pool
  result : t.result = before.result
  trace : t.trace = before.trace
  fragment : t.fragment = before.fragment
  lookup : t.lookup.map Lookup.fixed = before.lookup.map Lookup.fixed
  misses : ∀ a ∈ t.advisories, ∃ l ∈ before.lookup, ∃ value, a = .rangeMiss l.formula.formula.text value

/-- However it ends, a computation leaves the table in a state of this kind if it finds it in one. -/
def TableM.Keeps (inv : Table → Prop) (m : TableM σ α) : Prop :=
  ∀ t source, inv t → inv ((m.run.run t).run source).1.2

namespace TableM.Keeps
variable {inv : Table → Prop} {m : TableM σ α}

private theorem pure (a : α) : Keeps inv (pure a : TableM σ α) := fun _ _ => id

private theorem bind {f : α → TableM σ β} (hm : m.Keeps inv) (hf : ∀ a, (f a).Keeps inv) : (m >>= f).Keeps inv := by
  intro t source ht
  have hfirst := hm t source ht
  rw [runEdit_bind]
  revert hfirst
  cases (m.run.run t).run source with
  | mk result source' =>
    obtain ⟨outcome, t'⟩ := result
    cases outcome with
    | ok a => exact hf a t' source'
    | error why => exact id

private theorem get_bind {f : Table → TableM σ β} (hf : ∀ t, inv t → (f t).Keeps inv) : (get >>= f).Keeps inv :=
  fun t source ht => hf t ht t source ht

private theorem modify {edit : Table → Table} (h : ∀ t, inv t → inv (edit t)) :
    Keeps inv (modify edit : TableM σ PUnit) :=
  fun t _ => h t

private theorem liftExcept (r : Except RollError α) : Keeps inv (liftM r : TableM σ α) := by
  cases r with
  | ok a => exact fun _ _ => id
  | error why => exact fun _ _ => id

private theorem liftSource (m : StateM σ α) : Keeps inv (liftM m : TableM σ α) := fun _ _ => id

/-- What comes behind a computation on the source need only serve what that one can give. -/
theorem liftSource_bind {m : StateM σ α} {f : α → TableM σ β} (hf : ∀ source, (f (m source).1).Keeps inv) :
    ((liftM m : TableM σ α) >>= f).Keeps inv := fun t source => hf source t (m source).2

end TableM.Keeps

namespace Table
variable [RandomSource σ] {before : Table}

private theorem pickByLookup_keeps {lookup : Lookup} (hlookup : some lookup.fixed = before.lookup.map Lookup.fixed) :
    (pickByLookup lookup : TableM σ _).Keeps (RollsFrom before) := by
  obtain ⟨first, hfirst, hfixed⟩ := Option.map_eq_some_iff.1 hlookup.symm
  rw [pickByLookup]
  refine .liftSource_bind fun source => ?_
  obtain ⟨hformula, hsettings⟩ := lookup.formula.roll_fixed source
  have hrolled : Lookup.fixed { lookup with formula := (lookup.formula.roll source).1.2 } = first.fixed := by
    rw [hfixed, Lookup.fixed, hformula, hsettings, Lookup.fixed]
  have htext : (lookup.formula.roll source).1.2.formula = first.formula.formula := congrArg Prod.fst hrolled
  refine .bind (.modify fun t ht => { ht with lookup := ?_ }) fun _ => .bind (.liftExcept _) fun value => ?_
  · rw [hfirst]
    exact congrArg some hrolled
  · split
    · exact .get_bind fun _ _ => .pure _
    · refine .bind (.modify fun t ht => { ht with misses := fun a ha => ?_ }) fun _ => .pure _
      rcases List.mem_append.1 ha with hold | hnew
      · exact ht.misses a hold
      · refine ⟨first, hfirst, value.text, ?_⟩
        rw [List.mem_singleton.1 hnew, htext]

private theorem pick_keeps (remaining : List Nat) : (pick remaining : TableM σ _).Keeps (RollsFrom before) := by
  rw [pick]
  refine .get_bind fun t ht => ?_
  have hlookup := ht.lookup
  revert hlookup
  cases t.lookup with
  | some lookup => exact fun hlookup => .bind (pickByLookup_keeps hlookup) fun _ => .pure _
  | none => exact fun _ => .liftSource _

private theorem picks_keeps (roll : RollFormula σ) (count : Nat) (remaining : List Nat) :
    (picks roll count remaining).Keeps (RollsFrom before) := by
  induction count generalizing remaining with
  | zero => exact .pure []
  | succ count ih =>
    rw [picks]
    refine .bind (pick_keeps remaining) fun (picked, remaining) => ?_
    cases picked with
    | none => exact ih remaining
    | some p =>
      refine .bind (.liftSource _) fun outcome => .bind (.liftExcept outcome) fun (text, nested) => ?_
      exact .bind (ih remaining) fun _ => .pure _

omit [RandomSource σ] in
/-- What is written when all picks are made. -/
def conclude (text : String) (rolled : List Rolled) : TableM σ RollValue := do
  let result := "||".intercalate (rolled.map (·.value))
  let fragment := combine text (rolled.map (·.fragment))
  modify fun t => { t with result := some result, fragment, trace := Text.outline fragment }
  return .text result

theorem roll_eq (t : Table) (roll : RollFormula σ) (source : σ) :
    t.roll roll source =
      ((picks roll t.reference.count [] >>= conclude t.text).run.run { t with advisories := [] }).run source := rfl

/-- Nothing that is shown is written before the last pick is made. -/
theorem roll_of_error {t : Table} {roll : RollFormula σ} {source : σ} {why : RollError}
    (h : (t.roll roll source).1.1 = .error why) : t.RollsFrom (t.roll roll source).1.2 := by
  have hstart : t.RollsFrom { t with advisories := [] } := ⟨rfl, rfl, rfl, rfl, rfl, rfl, rfl, nofun⟩
  have hpicks := picks_keeps roll t.reference.count [] { t with advisories := [] } source hstart
  revert h hpicks
  rw [roll_eq, runEdit_bind]
  cases ((picks roll t.reference.count []).run.run { t with advisories := [] }).run source with
  | mk result source' =>
    obtain ⟨outcome, t'⟩ := result
    cases outcome with
    | ok rolled => exact nofun
    | error _ => exact fun _ hpicks => hpicks

end Table

/-- A roll of a table that fails, at its depth or at any of its picks, leaves all that the table shows and stores of
the roll before, and its rows. Too deep it does nothing at all. Otherwise the advisories that it leaves are those of
the failed roll alone: what the list held before makes no difference to it. -/
theorem Part.roll_table_of_error [RandomSource σ] (nested : Nested σ) (t : Table) (source : σ) (why : RollError)
    (h : ((Part.table t).roll nested source).1.1 = .error why) :
    ∃ after : Table, ((Part.table t).roll nested source).1.2 = .table after ∧
      (Roller.part (.table after)).ShowsAs (.part (.table t)) ∧
      (after.text = t.text ∧ after.reference = t.reference ∧ after.pool = t.pool) ∧
      match nested with
      | .error _ => after = t
      | .ok roll =>
        (∀ earlier, ({ t with advisories := earlier } : Table).roll roll source = t.roll roll source) ∧
          ∀ a ∈ after.advisories, ∃ l ∈ t.lookup, ∃ value, a = .rangeMiss l.formula.formula.text value := by
  cases nested with
  | error limit => exact ⟨t, rfl, ⟨rfl, rfl, rfl, rfl, rfl⟩, ⟨rfl, rfl, rfl⟩, rfl⟩
  | ok roll =>
    have hfrom : t.RollsFrom (t.roll roll source).1.2 := Table.roll_of_error h
    have hshows := Table.showsAs hfrom.result hfrom.trace hfrom.fragment
    exact ⟨_, rfl, hshows, ⟨hfrom.text, hfrom.reference, hfrom.pool⟩, fun _ => rfl, hfrom.misses⟩

/-- Whether a result is a certain failure can be told, whatever else it might be. -/
instance Except.decidableEqError (r : Except RollError α) (why : RollError) : Decidable (r = .error why) :=
  match r with
  | .ok _ => .isFalse nofun
  | .error why' => decidable_of_iff (why' = why) ⟨congrArg _, Except.error.inj⟩

/-- Tables with a lookup that has a row for a one and no other. The row divides by zero. -/
def Engine.onlyOne : Engine where
  tables := ({} : Store).insert "T" "x" (.markdown "| dice: 1d6 | R |\n|--|--|\n| 1 | \x60dice: 1/0\x60 |")

def Table.onlyOne : Table where
  text := "[[T]]^x"
  reference := { path := "T", block := "x" }
  pool := ["1 | \x60dice: 1/0\x60"]
  lookup := some {
    formula := .ofFormula ⟨"1d6", [⟨.dice 1 (.sided 6) [], ⟨0, 3⟩⟩]⟩ {}
    ranges := [⟨1, none, "\x60dice: 1/0\x60"⟩] }

private theorem Engine.load_onlyOne : onlyOne.load "[[T]]^x" 0 = .ok Table.onlyOne := rfl

/-- A first roll that comes to the row. -/
theorem Part.roll_onlyOne_of_error :
    Engine.onlyOne.load "[[T]]^x" 0 = .ok .onlyOne ∧
      ((Part.table .onlyOne).roll (Engine.onlyOne.nested 0) (Script.mk [1])).1.1 = .error .zeroDivision ∧
      ∃ after, ((Part.table .onlyOne).roll (Engine.onlyOne.nested 0) (Script.mk [1])).1.2 = .table after ∧
        (Roller.part (.table after)).ShowsAs (.part (.table .onlyOne)) ∧ after.pool = Table.onlyOne.pool := by
  have hfailed :
      ((Part.table .onlyOne).roll (Engine.onlyOne.nested 0) (Script.mk [1])).1.1 = .error .zeroDivision := by
    decide +kernel
  have hleft := roll_table_of_error (Engine.onlyOne.nested 0) .onlyOne (Script.mk [1]) .zeroDivision hfailed
  exact ⟨Engine.load_onlyOne, hfailed, hleft.imp fun after h => ⟨h.1, h.2.1, h.2.2.1.2.2⟩⟩

/-- A miss is an advisory of the roll that succeeds with it. The next roll fails, and the advisory is gone. -/
theorem Table.roll_drops_advisories :
    let roll : RollFormula Script := Engine.onlyOne.rollWithin 20
    let once := (Table.onlyOne.roll roll (Script.mk [2])).1.2
    let again := once.roll roll (Script.mk [1])
    again.1.1 = .error .zeroDivision ∧
      (once.result = some "" ∧ once.advisories = [.rangeMiss "1d6" "2"]) ∧
      again.1.2.result = some "" ∧ again.1.2.advisories = [] := by
  decide +kernel

end Tabletop
