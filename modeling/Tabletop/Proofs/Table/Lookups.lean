import Mathlib.Data.List.Find
import Tabletop.Engine
import Tabletop.Proofs.Table.Picks
import Tabletop.Proofs.Table.Ranges

/-! Rolls of lookup tables. The lookup formula is rolled once for each pick. A value gives the first row whose range has
it, or else an advisory, so that results and advisories together are as many as the picks. -/
namespace Tabletop
variable {σ : Type}

/-- One roll of a lookup formula: its value, with what the row that it selects gives, if there is one. -/
inductive Turn where
  | hit (value : Number) (range : LookupRange) (rolled : Rolled)
  | miss (value : Number)

namespace Turn

def value : Turn → Number
  | hit value _ _ => value
  | miss value => value

def range? : Turn → Option LookupRange
  | hit _ range _ => some range
  | miss _ => none

def rolled? : Turn → Option Rolled
  | hit _ _ rolled => some rolled
  | miss _ => none

def advisory? (formula : String) : Turn → Option Advisory
  | hit _ _ _ => none
  | miss value => some (.rangeMiss formula value.text)

private theorem length_rolled_add_advisories (formula : String) (turns : List Turn) :
    (turns.filterMap rolled?).length + (turns.filterMap (advisory? formula)).length = turns.length := by
  induction turns with
  | nil => rfl
  | cons turn turns ih =>
    rw [List.filterMap_cons, List.filterMap_cons]
    cases turn with
    | hit value range rolled =>
      simp only [rolled?, advisory?, List.length_cons]
      omega
    | miss value =>
      simp only [rolled?, advisory?, List.length_cons]
      omega

end Turn

namespace Table
variable [RandomSource σ]

omit [RandomSource σ] in
/-- What is noted of a row that a lookup formula selects, before the formulas in it. -/
def lookedUp (header : Option String) (e : Expression) : String :=
  match header with
  | some header => e.fragment ++ " | " ++ header
  | none => e.fragment

private theorem run_pickByLookup (lookup : Lookup) (t : Table) (source : σ) :
    ((pickByLookup lookup : TableM σ _).run.run t).run source =
      match lookup.formula.roll source with
      | ((.error why, e), rolled) => ((.error why, { t with lookup := some { lookup with formula := e } }), rolled)
      | ((.ok value, e), rolled) =>
        match lookup.ranges.find? (·.contains value) with
        | some range =>
          ((.ok (some ⟨lookedUp t.reference.header e, range.option⟩),
            { t with lookup := some { lookup with formula := e } }), rolled)
        | none =>
          ((.ok none,
            { t with
              lookup := some { lookup with formula := e }
              advisories := t.advisories ++ [.rangeMiss e.formula.text value.text] }), rolled) := by
  have hrun : lookup.formula.roll.run source = lookup.formula.roll source := rfl
  rw [pickByLookup, runEdit_bind, run_liftSource, hrun]
  obtain ⟨⟨outcome, e⟩, rolled⟩ := lookup.formula.roll source
  have hmodify (t : Table) (edit : Table → Table) :
      ((modify edit : TableM σ PUnit).run.run t).run rolled = ((.ok (), edit t), rolled) := rfl
  dsimp only
  rw [runEdit_bind, hmodify]
  dsimp only
  rw [runEdit_bind, run_liftExcept]
  cases outcome with
  | error why => rfl
  | ok value =>
    dsimp only
    cases lookup.ranges.find? (·.contains value) with
    | some range => rfl
    | none => rfl

private theorem run_pick_of_lookup {t : Table} {lookup : Lookup} (h : t.lookup = some lookup)
    (remaining : List Nat) (source : σ) :
    ((pick remaining : TableM σ _).run.run t).run source =
      match ((pickByLookup lookup : TableM σ _).run.run t).run source with
      | ((.error why, t), rolled) => ((.error why, t), rolled)
      | ((.ok picked, t), rolled) => ((.ok (picked, remaining), t), rolled) := by
  have hget : ((get : TableM σ Table).run.run t).run source = ((.ok t, t), source) := rfl
  rw [pick, runEdit_bind, hget]
  dsimp only
  rw [h]
  dsimp only
  rw [runEdit_bind]
  obtain ⟨⟨outcome, t⟩, rolled⟩ := ((pickByLookup lookup : TableM σ _).run.run t).run source
  cases outcome <;> rfl

/-- Picks by a lookup formula, which is rolled for each and goes from state to state. The formulas in a row are rolled
before the next pick. -/
inductive Turns (ranges : List LookupRange) (header : Option String) (roll : RollFormula σ) :
    Expression → σ → List Turn → Expression → σ → Prop where
  | nil (e : Expression) (source : σ) : Turns ranges header roll e source [] e source
  | hit {e e' last : Expression} {value : Number} {range : LookupRange} {text : String} {nested : List String}
    {turns : List Turn} {source rolled expanded after : σ} (lookup : e.roll source = ((.ok value, e'), rolled))
    (select : ranges.find? (·.contains value) = some range)
    (expand : (Marker.expand roll range.option).run.run rolled = (.ok (text, nested), expanded))
    (behind : Turns ranges header roll e' expanded turns last after) :
    Turns ranges header roll e source (.hit value range ⟨text, traced (lookedUp header e') nested⟩ :: turns) last after
  | miss {e e' last : Expression} {value : Number} {turns : List Turn} {source rolled after : σ}
    (lookup : e.roll source = ((.ok value, e'), rolled)) (select : ranges.find? (·.contains value) = none)
    (behind : Turns ranges header roll e' rolled turns last after) :
    Turns ranges header roll e source (.miss value :: turns) last after

private theorem Turns.range? {ranges : List LookupRange} {header : Option String} {roll : RollFormula σ}
    {e last : Expression} {source after : σ} {turns : List Turn}
    (h : Turns ranges header roll e source turns last after) :
    ∀ turn ∈ turns, turn.range? = ranges.find? (·.contains turn.value) := by
  induction h with
  | nil => nofun
  | hit _ select _ _ ih => exact List.forall_mem_cons.2 ⟨select.symm, ih⟩
  | miss _ select _ ih => exact List.forall_mem_cons.2 ⟨select.symm, ih⟩

variable {t t' : Table} {roll : RollFormula σ} {e : Expression} {ranges : List LookupRange}

omit [RandomSource σ] in
/-- A table after picks by its lookup formula. -/
def turned (t : Table) (lookup : Lookup) (turns : List Turn) : Table :=
  { t with
    lookup := some lookup
    advisories := t.advisories ++ turns.filterMap (Turn.advisory? lookup.formula.formula.text) }

private theorem Turns.formula {header : Option String} {last : Expression} {source after : σ} {turns : List Turn}
    (h : Turns ranges header roll e source turns last after) : last.formula = e.formula := by
  induction h with
  | nil => rfl
  | @hit e _ _ _ _ _ _ _ source _ _ _ lookup _ _ _ ih =>
    have hfixed := (e.roll_fixed source).1
    rw [lookup] at hfixed
    exact ih.trans hfixed
  | @miss e _ _ _ _ source _ _ lookup _ _ ih =>
    have hfixed := (e.roll_fixed source).1
    rw [lookup] at hfixed
    exact ih.trans hfixed

private theorem Turns.run_picks {last : Expression} {source after : σ} {turns : List Turn}
    (hturns : Turns ranges t.reference.header roll e source turns last after) (h : t.lookup = some ⟨e, ranges⟩)
    (remaining : List Nat) :
    ((picks roll turns.length remaining).run.run t).run source =
      ((.ok (turns.filterMap Turn.rolled?), t.turned ⟨last, ranges⟩ turns), after) := by
  generalize hheader : t.reference.header = header at hturns
  induction hturns generalizing t with
  | nil e source =>
    simp only [turned, List.filterMap_nil, List.append_nil, ← h]
    rfl
  | hit lookup select expand behind ih =>
    rw [List.length_cons, run_picks_succ, run_pick_of_lookup h, run_pickByLookup]
    simp only [lookup, select, expand]
    rw [@ih { t with lookup := _ } rfl hheader, hheader]
    rfl
  | @miss e e' last value _ _ _ _ lookup select behind ih =>
    rw [List.length_cons, run_picks_succ, run_pick_of_lookup h, run_pickByLookup]
    simp only [lookup, select]
    rw [@ih { t with lookup := _, advisories := _ } rfl hheader]
    have hformula : last.formula = e'.formula := behind.formula
    simp only [turned, List.append_assoc, hformula]
    rfl

private theorem exists_turns_of_run_picks (h : t.lookup = some ⟨e, ranges⟩) {count : Nat} {remaining : List Nat}
    {rolled : List Rolled} {source after : σ}
    (hrun : ((picks roll count remaining).run.run t).run source = ((.ok rolled, t'), after)) :
    ∃ turns last, turns.length = count ∧ Turns ranges t.reference.header roll e source turns last after := by
  induction count generalizing t t' e rolled source with
  | zero =>
    cases hrun
    exact ⟨[], e, rfl, .nil e _⟩
  | succ count ih =>
    rw [run_picks_succ, run_pick_of_lookup h, run_pickByLookup] at hrun
    dsimp only at hrun
    cases hlookup : e.roll source with
    | mk result looked =>
      obtain ⟨outcome, e'⟩ := result
      cases outcome with
      | error why =>
        rw [hlookup] at hrun
        cases hrun
      | ok value =>
        rw [hlookup] at hrun
        dsimp only at hrun
        cases hselect : ranges.find? (·.contains value) with
        | none =>
          rw [hselect] at hrun
          obtain ⟨turns, last, rfl, hturns⟩ := ih rfl hrun
          exact ⟨_, last, rfl, .miss hlookup hselect hturns⟩
        | some range =>
          rw [hselect] at hrun
          dsimp only at hrun
          split at hrun
          · cases hrun
          · rename_i text nested expanded hexpand
            split at hrun
            · cases hrun
            · rename_i hpicks
              cases hrun
              obtain ⟨turns, last, rfl, hturns⟩ := ih rfl hpicks
              exact ⟨_, last, rfl, .hit hlookup hselect hexpand hturns⟩

private theorem roll_of_lookup_eq_ok_iff (h : t.lookup = some ⟨e, ranges⟩) {v : RollValue} {source after : σ} :
    t.roll roll source = ((.ok v, t'), after) ↔
      ∃ turns last, turns.length = t.reference.count ∧
        Turns ranges t.reference.header roll e source turns last after ∧
          let rolled := turns.filterMap Turn.rolled?
          let result := "||".intercalate (rolled.map (·.value))
          let fragment := combine t.text (rolled.map (·.fragment))
          v = .text result ∧
            t' = { t with
              lookup := some ⟨last, ranges⟩
              result := some result
              fragment
              trace := Text.outline fragment
              advisories := turns.filterMap (Turn.advisory? e.formula.text) } := by
  have hrun {turns : List Turn} {last : Expression}
      (hturns : Turns ranges t.reference.header roll e source turns last after) :
      ((picks roll turns.length []).run.run { t with advisories := [] }).run source =
        ((.ok (turns.filterMap Turn.rolled?), { t with
          lookup := some ⟨last, ranges⟩
          advisories := turns.filterMap (Turn.advisory? e.formula.text) }), after) := by
    rw [Turns.run_picks (t := { t with advisories := [] }) hturns h, turned, hturns.formula]
    rfl
  rw [run_roll]
  constructor
  · intro hroll
    split at hroll
    · cases hroll
    · rename_i hpicks
      cases hroll
      obtain ⟨turns, last, hlength, hturns⟩ := exists_turns_of_run_picks (t := { t with advisories := [] }) h hpicks
      rw [← hlength, hrun hturns] at hpicks
      cases hpicks
      exact ⟨turns, last, hlength, hturns, rfl, rfl⟩
  · rintro ⟨turns, last, hlength, hturns, rfl, rfl⟩
    rw [← hlength, hrun hturns]
    rfl

/-- A written lookup table, from its text to its rolls. It is loaded with the ranges of its rows in order, and rolled it
gives for each whole value of the formula the first row that has it, with the formulas in the row rolled, or else an
advisory. Whatever the values are, results and advisories together are as many as the picks. -/
theorem lookup_written {store : Store} {build : String → Except RollError (Option Expression)}
    {text formula second separator : String} {r : Reference} {rows : List LookupRow} {first : Expression}
    (hread : Reference.read text = .ok r)
    (hblock : store.blocks.lookup (Store.key r.path r.block) =
      some (.markdown (Markdown.writeLookup formula second separator rows)))
    (hformula : Markdown.IsFormula formula) (hsecond : Markdown.IsCell second) (hseparator : '\n' ∉ separator.toList)
    (hrows : ∀ row ∈ rows, row.Valid) (hbuild : build formula = .ok (some first)) :
    (∀ t, load store build text = .ok t → t.reference = r ∧ t.lookup = some ⟨first, rows.map LookupRow.range⟩) ∧
    ((∀ header ∈ r.header, header = "dice: " ++ formula ∨ header = Markdown.nameHeader second 1) →
      ∃ t, load store build text = .ok t) ∧
    ∀ (t : Table) (e : Expression), t.lookup = some ⟨e, rows.map LookupRow.range⟩ →
      ∀ (roll : RollFormula σ) (source : σ),
        (∀ v t' after, t.roll roll source = ((.ok v, t'), after) ↔
          ∃ turns last, turns.length = t.reference.count ∧
            Turns (rows.map LookupRow.range) t.reference.header roll e source turns last after ∧
              let rolled := turns.filterMap Turn.rolled?
              let result := "||".intercalate (rolled.map (·.value))
              let fragment := combine t.text (rolled.map (·.fragment))
              v = .text result ∧
                t' = { t with
                  lookup := some ⟨last, rows.map LookupRow.range⟩
                  result := some result
                  fragment
                  trace := Text.outline fragment
                  advisories := turns.filterMap (Turn.advisory? e.formula.text) }) ∧
        ∀ turns last after, Turns (rows.map LookupRow.range) t.reference.header roll e source turns last after →
          (∀ turn ∈ turns, ∀ n, turn.value = .whole n →
            turn.range? = (rows.find? (·.covers n.toInt)).map LookupRow.range) ∧
          (turns.filterMap Turn.rolled?).length + (turns.filterMap (Turn.advisory? e.formula.text)).length =
            turns.length := by
  obtain ⟨hranges, hload⟩ := load_writeLookup hread hblock hformula hsecond hseparator hrows hbuild
  refine ⟨hranges, hload, fun t e h roll source => ⟨fun v t' after => roll_of_lookup_eq_ok_iff h, ?_⟩⟩
  refine fun turns last after hturns => ⟨fun turn hturn n hn => ?_, Turn.length_rolled_add_advisories _ turns⟩
  rw [hturns.range? turn hturn, hn, List.find?_map]
  congr 1
  refine List.find?_congr fun row hrow => ?_
  exact row.contains_range (hrows row hrow) n

/-- Who is met, by one die. Nobody for a six. -/
def encounters : List LookupRow := [⟨1, some 3, "Goblin"⟩, ⟨4, none, "Orc"⟩, ⟨5, none, "Dragon"⟩]

def encounterTable : Engine where
  tables := ({} : Store).insert "T" "x" (.markdown (Markdown.writeLookup "1d6" "Result" "|--|--|" encounters))

theorem lookup_written_encounters :
    ∃ (t : Table) (e : Expression), encounterTable.load "2[[T]]^x" 0 = .ok t ∧
      t.lookup = some ⟨e, [⟨1, some 3, "Goblin"⟩, ⟨4, none, "Orc"⟩, ⟨5, none, "Dragon"⟩]⟩ ∧
      ∀ (roll : RollFormula Script) source turns last after,
        Turns (encounters.map LookupRow.range) none roll e source turns last after → ∀ turn ∈ turns,
          (turn.value = .whole 4 → turn.range? = some ⟨4, none, "Orc"⟩) ∧
          (turn.value = .whole 6 → turn.range? = none) := by
  have hword {cell : String} (h : cell.toList.all (fun c => !Text.isBlank c && c != '|') = true) :
      Markdown.IsCell cell := .of_forall fun c hc => by simpa using List.all_eq_true.1 h c hc
  have hrows : ∀ row ∈ encounters, row.Valid := by
    intro row hrow
    simp only [encounters, List.mem_cons, List.not_mem_nil, or_false] at hrow
    rcases hrow with rfl | rfl | rfl <;> exact ⟨by decide, by decide, by decide, hword (by decide)⟩
  obtain ⟨e, hbuild⟩ : ∃ e, ((encounterTable.buildWithin 20 "1d6").map (·.expression?)) = .ok (some e) := ⟨_, rfl⟩
  have hwritten := @lookup_written Script _ encounterTable.tables
    (fun formula => (encounterTable.buildWithin 20 formula).map (·.expression?)) "2[[T]]^x" "1d6" "Result" "|--|--|"
    { count := 2, path := "T", block := "x" } encounters e rfl rfl
    ⟨hword (by decide), by decide, by decide⟩ (hword (by decide)) (by decide) hrows hbuild
  obtain ⟨hranges, hload, hroll⟩ := hwritten
  obtain ⟨t, ht⟩ := hload nofun
  obtain ⟨href, hlookup⟩ := hranges t ht
  refine ⟨t, e, ht, hlookup, fun roll source turns last after hturns turn hturn => ?_⟩
  have hheader : t.reference.header = none := by rw [href]
  obtain ⟨hselect, -⟩ := (hroll t e hlookup roll source).2 turns last after (by rwa [hheader])
  exact ⟨fun hvalue => hselect turn hturn 4 hvalue, fun hvalue => hselect turn hturn 6 hvalue⟩

end Table
end Tabletop
