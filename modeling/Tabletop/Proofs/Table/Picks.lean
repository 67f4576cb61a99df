import Tabletop.Proofs.Table.Failure

/-! Runs of single picks. -/
namespace Tabletop.Table
variable {σ α : Type} [RandomSource σ]

theorem drawPosition_lt {n : Nat} (h : 0 < n) (source : σ) : ((drawPosition n).run source).1 < n :=
  Nat.lt_of_le_of_lt (Nat.min_le_right _ _) (Nat.sub_lt h Nat.one_pos)

omit [RandomSource σ] in
theorem run_liftSource (m : StateM σ α) (t : Table) (source : σ) :
    ((liftM m : TableM σ α).run.run t).run source = ((.ok (m.run source).1, t), (m.run source).2) := rfl

omit [RandomSource σ] in
theorem run_liftExcept (r : Except RollError α) (t : Table) (source : σ) :
    ((liftM r : TableM σ α).run.run t).run source = ((r, t), source) := by
  cases r <;> rfl

theorem pick_of_list {t : Table} (h : t.lookup = none) (remaining : List Nat) (source : σ) :
    ((pick remaining : TableM σ _).run.run t).run source =
      ((.ok ((pickFromPool t.pool remaining).run source).1, t), ((pickFromPool t.pool remaining).run source).2) := by
  have hget : ((get : TableM σ Table).run.run t).run source = ((.ok t, t), source) := rfl
  rw [← run_liftSource, pick, runEdit_bind, hget]
  dsimp only
  rw [h]

omit [RandomSource σ] in
/-- What is noted of a pick, with the traces of the formulas in its row. -/
def traced (how : String) (nested : List String) : String :=
  if nested = [] then how else how ++ " > (" ++ ";".intercalate nested ++ ")"

/-- The first pick, and the picks behind it. -/
theorem run_picks_succ (roll : RollFormula σ) (count : Nat) (remaining : List Nat) (t : Table) (source : σ) :
    ((picks roll (count + 1) remaining).run.run t).run source =
      match ((pick remaining).run.run t).run source with
      | ((.error why, t), source) => ((.error why, t), source)
      | ((.ok (none, remaining), t), source) => ((picks roll count remaining).run.run t).run source
      | ((.ok (some p, remaining), t), source) =>
        match (Marker.expand roll p.row).run.run source with
        | (.error why, source) => ((.error why, t), source)
        | (.ok (text, nested), source) =>
          match ((picks roll count remaining).run.run t).run source with
          | ((.error why, t), source) => ((.error why, t), source)
          | ((.ok rolled, t), source) => ((.ok (⟨text, traced p.fragment nested⟩ :: rolled), t), source) := by
  rw [picks, runEdit_bind]
  obtain ⟨⟨picked, t⟩, source⟩ := ((pick remaining).run.run t).run source
  cases picked with
  | error why => rfl
  | ok picked =>
    obtain ⟨picked, remaining⟩ := picked
    cases picked with
    | none => rfl
    | some p =>
      dsimp only
      rw [runEdit_bind, run_liftSource]
      obtain ⟨outcome, source⟩ := (Marker.expand roll p.row).run.run source
      dsimp only
      rw [runEdit_bind, run_liftExcept]
      cases outcome with
      | error why => rfl
      | ok expanded =>
        dsimp only
        rw [runEdit_bind]
        obtain ⟨⟨outcome, t⟩, source⟩ := ((picks roll count remaining).run.run t).run source
        cases outcome <;> rfl

/-- A table with the results of picks behind its reference. -/
def concluded (text : String) (rolled : List Rolled) (t : Table) : Table :=
  let fragment := combine text (rolled.map (·.fragment))
  { t with result := some ("||".intercalate (rolled.map (·.value))), fragment, trace := Text.outline fragment }

theorem run_roll (t : Table) (roll : RollFormula σ) (source : σ) :
    t.roll roll source =
      match ((picks roll t.reference.count []).run.run { t with advisories := [] }).run source with
      | ((.error why, t'), after) => ((.error why, t'), after)
      | ((.ok rolled, t'), after) =>
        ((.ok (.text ("||".intercalate (rolled.map (·.value)))), t'.concluded t.text rolled), after) := by
  rw [roll_eq, runEdit_bind]
  obtain ⟨⟨outcome, t'⟩, after⟩ := ((picks roll t.reference.count []).run.run { t with advisories := [] }).run source
  cases outcome <;> rfl

end Tabletop.Table
