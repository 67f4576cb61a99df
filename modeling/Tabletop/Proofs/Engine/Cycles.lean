import Mathlib.Data.List.GetD
import Tabletop.Proofs.Engine.Depths
import Tabletop.Proofs.Table.Loading
import Tabletop.Proofs.Table.Picks

/-! Tables that lead to each other without end. The rows of such lists are rolled, and the lookups of such tables built,
one level deeper each time, so that the descent ends at the ceiling and nowhere else, whatever rows are drawn. -/
namespace Tabletop
variable {σ α β : Type}

/-- One formula that reads as a reference to one of certain blocks. -/
def RefersInto (blocks : String × String → Prop) (text : String) : Prop :=
  ';' ∉ text.toList ∧ ∃ r, Reference.read text = .ok r ∧ blocks (Store.key r.path r.block)

/-- Whatever the source answers, the formula comes to a certain failure. -/
def Fails (m : ExceptT RollError (StateM σ) α) (why : RollError) : Prop := ∀ source, (m.run.run source).1 = .error why

private theorem Fails.bind {m : ExceptT RollError (StateM σ) α} {why : RollError} (h : Fails m why)
    (f : α → ExceptT RollError (StateM σ) β) : Fails (m >>= f) why := by
  intro source
  rw [runState_bind, ← Prod.eta (m.run.run source), h source]

namespace Marker

/-- A text fails as the formula of its first marker does. -/
theorem fails_expand {roll : RollFormula σ} {text : String} {before formula : List Char}
    {parts : List (List Char × List Char)} (hcut : (cut text.toList).parts = (before, formula) :: parts)
    {why : RollError} (h : Fails (roll (.ofList (Text.trimChars formula))) why) : Fails (expand roll text) why := by
  rw [expand]
  dsimp only
  rw [hcut, fill]
  exact (h.bind _).bind _

end Marker

namespace Table
variable [RandomSource σ]

/-- A pool with rows gives one of them. -/
theorem exists_pickFromPool {pool : List String} (h : pool ≠ []) (source : σ) :
    ∃ p rest, ((pickFromPool pool []).run source).1 = (some p, rest) ∧ p.row ∈ pool := by
  have hrange : List.range pool.length ≠ [] := by simpa using h
  have hposition := drawPosition_lt (List.length_pos_iff.2 hrange) source
  rw [pickFromPool, if_pos rfl, if_neg hrange]
  refine ⟨_, _, rfl, ?_⟩
  have hrow : (List.range pool.length).getD ((drawPosition (List.range pool.length).length).run source).1 0 <
      pool.length := by
    rw [List.getD_eq_getElem _ _ hposition]
    exact List.mem_range.1 (List.getElem_mem hposition)
  have hmem := List.getElem_mem hrow
  rwa [← List.getD_eq_getElem pool "" hrow] at hmem

/-- A table that gives only rows that fail fails itself. -/
theorem roll_of_fails {t : Table} {roll : RollFormula σ} {why : RollError} (hlookup : t.lookup = none)
    (hpool : t.pool ≠ []) (hcount : 0 < t.reference.count) (h : ∀ row ∈ t.pool, Fails (Marker.expand roll row) why)
    (source : σ) : (t.roll roll source).1.1 = .error why := by
  obtain ⟨count, hcount⟩ := Nat.exists_eq_add_one_of_ne_zero hcount.ne'
  obtain ⟨p, rest, hpick, hrow⟩ := exists_pickFromPool (σ := σ) hpool source
  have hrun := pick_of_list (t := { t with advisories := [] }) hlookup [] source
  rw [hpick] at hrun
  rw [run_roll, hcount, run_picks_succ, hrun]
  dsimp only
  rw [← Prod.eta ((Marker.expand roll p.row).run.run _), h p.row hrow]

end Table

namespace Engine
variable {g : Engine} {blocks : String × String → Prop} {text : String}

/-- The blocks are lists with rows, each of which has formulas in it, and all of those refer to the blocks again. -/
def LoopsByRows (g : Engine) (blocks : String × String → Prop) : Prop :=
  ∀ k, blocks k → ∃ rows, g.tables.blocks.lookup k = some (.list rows) ∧ rows ≠ [] ∧
    ∀ row ∈ rows, (Marker.cut row.toList).parts ≠ [] ∧
      ∀ part ∈ (Marker.cut row.toList).parts, RefersInto blocks (.ofList (Text.trimChars part.2))

/-- The blocks are tables, each with a lookup formula that refers to the blocks again. -/
def LoopsByLookup (g : Engine) (blocks : String × String → Prop) : Prop :=
  ∀ k, blocks k → ∃ content formula, g.tables.blocks.lookup k = some (.markdown content) ∧
    (Markdown.ofText content).lookupFormula? = some formula ∧ RefersInto blocks formula

private theorem buildWith_of_refers (h : RefersInto blocks text) (deeper : String → Except RollError Roller) :
    g.buildWith deeper text = (g.loadWith deeper text).map fun t => .part (.table t) := by
  obtain ⟨hsemi, r, hread, -⟩ := h
  have hsingle : (Text.trim text).toList.contains ';' = false := by
    rw [← Bool.not_eq_true, List.contains_iff_mem, Text.toList_trim]
    exact fun hmem => hsemi (Text.mem_of_mem_trimChars hmem)
  have hread' := Reference.read_trim hread
  simp only [buildWith, hsingle, partWith, Text.trim_trim, hread', loadWith, Table.load_trim]
  cases Table.load g.tables (fun formula => (deeper formula).map (·.expression?)) text <;> rfl

/-- A lookup that leads into the circle cannot be built with any number of levels to go. -/
theorem buildWithin_of_loopsByLookup (h : g.LoopsByLookup blocks) (room : Nat) (ht : RefersInto blocks text) :
    g.buildWithin room text = .error g.tooDeep := by
  induction room generalizing text with
  | zero => rfl
  | succ room ih =>
    obtain ⟨r, hread, hblock⟩ := ht.2
    obtain ⟨content, formula, hcontent, hformula, hinto⟩ := h _ hblock
    rw [buildWithin, buildWith_of_refers ht, loadWith, Table.load_of_lookup_error hread hcontent hformula]
    · rfl
    · rw [ih hinto]
      rfl

/-- A list of the circle is built with any level to go. -/
theorem exists_buildWith_of_loopsByRows (h : g.LoopsByRows blocks) (deeper : String → Except RollError Roller)
    (ht : RefersInto blocks text) :
    ∃ t : Table, g.buildWith deeper text = .ok (.part (.table t)) ∧ t.lookup = none ∧ t.pool ≠ [] ∧
      0 < t.reference.count ∧ ∀ row ∈ t.pool, ∃ before formula parts,
        (Marker.cut row.toList).parts = (before, formula) :: parts ∧
          RefersInto blocks (.ofList (Text.trimChars formula)) := by
  obtain ⟨r, hread, hblock⟩ := ht.2
  obtain ⟨rows, hrows, hne, hall⟩ := h _ hblock
  let t : Table := { text := Text.trim text, reference := r, pool := rows }
  refine ⟨t, ?_, rfl, hne, Reference.count_pos hread, fun row hrow => ?_⟩
  · rw [buildWith_of_refers ht, loadWith, Table.load_of_fetch hread hrows]
    rfl
  · obtain ⟨hparts, hinto⟩ := hall row hrow
    obtain ⟨⟨before, formula⟩, parts, hcut⟩ := List.exists_cons_of_ne_nil hparts
    have hfirst : (before, formula) ∈ (Marker.cut row.toList).parts := by
      rw [hcut]
      exact List.mem_cons_self
    have hformula : RefersInto blocks (.ofList (Text.trimChars formula)) := hinto (before, formula) hfirst
    exact ⟨before, formula, parts, hcut, hformula⟩

variable [RandomSource σ]

/-- The roll of a table whose rows lead into the circle fails as the formulas do one level deeper. -/
theorem roll_of_fails {t : Table} {roll : RollFormula σ} {why : RollError} (hlookup : t.lookup = none)
    (hpool : t.pool ≠ []) (hcount : 0 < t.reference.count)
    (hrows : ∀ row ∈ t.pool, ∃ before formula parts, (Marker.cut row.toList).parts = (before, formula) :: parts ∧
      RefersInto blocks (.ofList (Text.trimChars formula)))
    (h : ∀ formula, RefersInto blocks formula → Fails (roll formula) why) (source : σ) :
    ((Roller.part (.table t)).roll (.ok roll) source).1.1 = .error why := by
  refine Table.roll_of_fails hlookup hpool hcount (fun row hrow => ?_) source
  obtain ⟨before, formula, parts, hcut, hinto⟩ := hrows row hrow
  exact Marker.fails_expand hcut (h _ hinto)

private theorem rollWithin_of_loopsByRows (h : g.LoopsByRows blocks) (room : Nat) (ht : RefersInto blocks text) :
    Fails (g.rollWithin room text : ExceptT RollError (StateM σ) Rolled) g.tooDeep := by
  induction room generalizing text with
  | zero => exact fun _ => rfl
  | succ room ih =>
    obtain ⟨t, hbuild, hlookup, hpool, hcount, hrows⟩ := exists_buildWith_of_loopsByRows h (g.buildWithin room) ht
    intro source
    have hroll := roll_of_fails hlookup hpool hcount hrows (fun _ hinto => ih hinto) source
    rw [rollWithin, hbuild]
    change (((liftM ((Roller.part (.table t)).roll (.ok (g.rollWithin room)) source).1.1 >>= fun value =>
      pure ⟨value.shown, _⟩ : ExceptT RollError (StateM σ) Rolled)).run.run _).1 = _
    rw [hroll]
    rfl

/-- Two lists that lead to each other, and a table that looks itself up. -/
def circles : Engine where
  tables := ({} : Store)
    |>.insert "L" "a" (.list ["\x60dice: 2[[L]]^b\x60", "or \x60dice: [[L]]^a\x60"])
    |>.insert "L" "b" (.list ["\x60dice:[[L]]^a\x60!"])
    |>.insert "T" "x" (.markdown "| dice: [[T]]^x | R |\n|--|--|\n| 1 | a |")

end Engine
end Tabletop
