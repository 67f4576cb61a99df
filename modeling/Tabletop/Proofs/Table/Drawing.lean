import Mathlib.Data.List.GetD
import Mathlib.Data.List.Nodup
import Mathlib.Data.List.Perm.Subperm
import Tabletop.Proofs.Table.Markers
import Tabletop.Proofs.Table.Picks

/-! Rows drawn by chance. A row that has come does not come again before all others have, so that the draws fall into
blocks, each of which has every row of the table once. -/
namespace Tabletop
variable {σ : Type}

namespace Table

/-- The draws of the block that is under way. -/
def currentBlock (size : Nat) (before : List Nat) : List Nat := before.drop (before.length / size * size)

/-- The rows that have not come in the block of draws that is under way. -/
def rowsLeft (size : Nat) (before : List Nat) : List Nat :=
  (List.range size).filter (· ∉ currentBlock size before)

/-- Draws each of which gives a row that has not come in its block before. -/
inductive Undrawn (size : Nat) : List Nat → Prop where
  | nil : Undrawn size []
  | concat {before : List Nat} {row : Nat} (h : Undrawn size before) (hrow : row ∈ rowsLeft size before) :
    Undrawn size (before ++ [row])

variable {size row : Nat} {before rows : List Nat}

private theorem length_currentBlock (size : Nat) (before : List Nat) :
    (currentBlock size before).length = before.length % size := by
  have hdiv := Nat.div_add_mod' before.length size
  rw [currentBlock, List.length_drop]
  omega

/-- The draw that makes a block full begins a new one. -/
theorem currentBlock_concat_of_eq (h : before.length % size + 1 = size) : currentBlock size (before ++ [row]) = [] := by
  have hfull : (before.length + 1) % size = 0 := by
    rw [← Nat.mod_add_mod, h, Nat.mod_self]
  apply List.eq_nil_of_length_eq_zero
  rw [length_currentBlock, List.length_append, List.length_singleton, hfull]

private theorem currentBlock_concat_of_lt (h : before.length % size + 1 < size) :
    currentBlock size (before ++ [row]) = currentBlock size before ++ [row] := by
  have hdiv := Nat.div_add_mod' before.length size
  have hsame : (before.length + 1) / size = before.length / size := by
    apply Nat.div_eq_of_lt_le
    · omega
    · rw [Nat.add_one_mul]
      omega
  rw [currentBlock, List.length_append, List.length_singleton, hsame, List.drop_append_of_le_length (by omega),
    currentBlock]

private theorem mem_rowsLeft : row ∈ rowsLeft size before ↔ row < size ∧ row ∉ currentBlock size before := by
  simp [rowsLeft]

private theorem rowsLeft_nil (size : Nat) : rowsLeft size [] = List.range size := by simp [rowsLeft, currentBlock]

private theorem nodup_rowsLeft : (rowsLeft size before).Nodup := List.nodup_range.filter _

namespace Undrawn

private theorem lt_of_mem (h : Undrawn size rows) (hrow : row ∈ rows) : row < size := by
  induction h with
  | nil => cases hrow
  | concat _ hlast ih =>
    rcases List.mem_append.1 hrow with hold | hnew
    · exact ih hold
    · rw [List.mem_singleton.1 hnew]
      exact (mem_rowsLeft.1 hlast).1

/-- No row comes twice in a block. -/
theorem nodup_block (h : Undrawn size rows) (k : Nat) : ((rows.drop (k * size)).take size).Nodup := by
  induction h with
  | nil => simp
  | @concat before row h hrow ih =>
    have hlength : (before ++ [row]).length = before.length + 1 := by simp
    by_cases hpast : (k + 1) * size ≤ before.length
    · rw [Nat.succ_mul] at hpast
      rwa [List.drop_append_of_le_length (by omega), List.take_append_of_le_length (by rw [List.length_drop]; omega)]
    by_cases hnow : k * size ≤ before.length
    · -- the row is the last of this block so far
      have hk : before.length / size = k := Nat.div_eq_of_lt_le hnow (Nat.lt_of_not_le hpast)
      obtain ⟨-, hnew⟩ := mem_rowsLeft.1 hrow
      rw [currentBlock, hk] at hnew
      rw [Nat.succ_mul] at hpast
      rw [List.take_of_length_le (by rw [List.length_drop]; omega)] at ih
      rw [List.drop_append_of_le_length hnow, List.take_of_length_le (by simp; omega), ← List.concat_eq_append]
      exact List.Nodup.concat hnew ih
    · rw [List.drop_eq_nil_of_le (by omega), List.take_nil]
      exact List.nodup_nil

/-- A full block has every row once. -/
theorem perm_block (h : Undrawn size rows) {k : Nat} (hfull : (k + 1) * size ≤ rows.length) :
    ((rows.drop (k * size)).take size).Perm (List.range size) := by
  have hsub : (rows.drop (k * size)).take size ⊆ List.range size := by
    intro row hrow
    exact List.mem_range.2 (h.lt_of_mem (List.mem_of_mem_drop (List.mem_of_mem_take hrow)))
  refine ((h.nodup_block k).subperm hsub).perm_of_length_le ?_
  rw [Nat.succ_mul] at hfull
  rw [List.length_range, List.length_take, List.length_drop]
  omega

private theorem nodup_currentBlock (h : Undrawn size before) (hpos : 0 < size) : (currentBlock size before).Nodup := by
  have hlength := length_currentBlock size before
  have hmod := Nat.mod_lt before.length hpos
  have hblock := h.nodup_block (before.length / size)
  rwa [← currentBlock, List.take_of_length_le (by omega)] at hblock

/-- The rows that are left make up all rows with those of the block that is under way. -/
theorem rowsLeft_append_perm (h : Undrawn size before) (hpos : 0 < size) :
    (rowsLeft size before ++ currentBlock size before).Perm (List.range size) := by
  refine (List.perm_ext_iff_of_nodup ?_ List.nodup_range).2 fun row => ?_
  · rw [List.nodup_append']
    exact ⟨nodup_rowsLeft, h.nodup_currentBlock hpos, fun row hleft => (mem_rowsLeft.1 hleft).2⟩
  · have hlt (hrow : row ∈ currentBlock size before) : row < size := h.lt_of_mem (List.mem_of_mem_drop hrow)
    rw [List.mem_append, mem_rowsLeft, List.mem_range]
    tauto

private theorem length_rowsLeft (h : Undrawn size before) (hpos : 0 < size) :
    (rowsLeft size before).length = size - before.length % size := by
  have hlength := (h.rowsLeft_append_perm hpos).length_eq
  rw [List.length_append, length_currentBlock, List.length_range] at hlength
  omega

private theorem rowsLeft_ne_nil (h : Undrawn size before) (hpos : 0 < size) : rowsLeft size before ≠ [] := by
  have hlength := h.length_rowsLeft hpos
  have hmod := Nat.mod_lt before.length hpos
  apply List.ne_nil_of_length_pos
  omega

/-- Once the last row that is left is drawn, all rows are there again. -/
theorem rowsLeft_concat (h : Undrawn size before) {position : Nat} (hposition : position < (rowsLeft size before).length) :
    rowsLeft size (before ++ [(rowsLeft size before)[position]]) =
      if (rowsLeft size before).eraseIdx position = [] then List.range size
      else (rowsLeft size before).eraseIdx position := by
  have hmem : (rowsLeft size before)[position] ∈ rowsLeft size before := List.getElem_mem hposition
  have hpos : 0 < size := Nat.zero_lt_of_lt (mem_rowsLeft.1 hmem).1
  have hleft := h.length_rowsLeft hpos
  have hmod := Nat.mod_lt before.length hpos
  have herase := List.length_eraseIdx_of_lt hposition
  by_cases hlast : before.length % size + 1 = size
  · have hnil : (rowsLeft size before).eraseIdx position = [] := List.eq_nil_of_length_eq_zero (by omega)
    rw [if_pos hnil, rowsLeft, currentBlock_concat_of_eq hlast]
    simp
  · have hne : (rowsLeft size before).eraseIdx position ≠ [] := List.ne_nil_of_length_pos (by omega)
    rw [if_neg hne, ← nodup_rowsLeft.erase_getElem position hposition, nodup_rowsLeft.erase_eq_filter]
    generalize (rowsLeft size before)[position] = row
    rw [rowsLeft, rowsLeft, currentBlock_concat_of_lt (by omega), List.filter_filter]
    refine List.filter_congr fun other _ => ?_
    rw [Bool.eq_iff_iff]
    simp [and_comm]

end Undrawn

variable [RandomSource σ]

/-- Draws one of the rows that are left. -/
def drawRow (size : Nat) (before : List Nat) : StateM σ Nat := do
  let position ← drawPosition (rowsLeft size before).length
  return (rowsLeft size before).getD position 0

private theorem exists_drawRow_eq (h : Undrawn size before) (hpos : 0 < size) (source : σ) :
    ∃ position drawn, ∃ hposition : position < (rowsLeft size before).length,
      drawPosition (rowsLeft size before).length source = (position, drawn) ∧
        drawRow size before source = ((rowsLeft size before)[position], drawn) := by
  have hposition := drawPosition_lt (List.length_pos_iff.2 (h.rowsLeft_ne_nil hpos)) source
  refine ⟨_, _, hposition, rfl, ?_⟩
  rw [← List.getD_eq_getElem _ 0 hposition]
  rfl

private theorem drawRow_mem (h : Undrawn size before) (hpos : 0 < size) (source : σ) :
    (drawRow size before source).1 ∈ rowsLeft size before := by
  obtain ⟨position, drawn, hposition, -, hrow⟩ := exists_drawRow_eq h hpos source
  rw [hrow]
  exact List.getElem_mem hposition

/-- A row that was drawn, its text with the formulas in it rolled, and the traces of these. -/
structure DrawnRow where
  row : Nat
  text : String
  nested : List String

/-- What is noted of the row drawn after a number of others: how many were left, which it is, and its formulas. -/
def DrawnRow.fragment (size drawn : Nat) (d : DrawnRow) : String :=
  traced (toString (size - drawn % size) ++ " rows --> [row " ++ toString (d.row + 1) ++ "]") d.nested

/-- Rows are drawn one after the other, each of those that are left, and the formulas in each are rolled before the next
is drawn. -/
inductive Draws (pool : List String) (roll : RollFormula σ) : List Nat → σ → List DrawnRow → σ → Prop where
  | nil (before : List Nat) (source : σ) : Draws pool roll before source [] source
  | cons {before : List Nat} {d : DrawnRow} {content : String} {rest : List DrawnRow} {source drawn expanded after : σ}
    (draw : drawRow pool.length before source = (d.row, drawn)) (row : pool[d.row]? = some content)
    (expand : (Marker.expand roll content).run.run drawn = (.ok (d.text, d.nested), expanded))
    (behind : Draws pool roll (before ++ [d.row]) expanded rest after) :
    Draws pool roll before source (d :: rest) after

private theorem Draws.undrawn {pool : List String} {roll : RollFormula σ} {source after : σ} {drawn : List DrawnRow}
    (h : Draws pool roll before source drawn after) (hbefore : Undrawn pool.length before) (hpool : pool ≠ []) :
    Undrawn pool.length (before ++ drawn.map (·.row)) := by
  induction h with
  | nil => rwa [List.map_nil, List.append_nil]
  | @cons before d _ _ source _ _ _ draw _ _ _ ih =>
    rw [List.map_cons, List.append_cons]
    refine ih (.concat hbefore ?_)
    have hmem := drawRow_mem hbefore (List.length_pos_iff.2 hpool) source
    rwa [draw] at hmem

/-- What a pick leaves for the next are the rows that are left, or none if those are all rows again. -/
theorem exists_pickFromPool_eq {pool : List String} {remaining : List Nat} (h : Undrawn pool.length before)
    (hpool : pool ≠ [])
    (hremaining : (if remaining = [] then List.range pool.length else remaining) = rowsLeft pool.length before)
    (source : σ) :
    ∃ row content drawn rest, drawRow pool.length before source = (row, drawn) ∧ pool[row]? = some content ∧
      pickFromPool pool remaining source = ((some ⟨toString (pool.length - before.length % pool.length) ++
        " rows --> [row " ++ toString (row + 1) ++ "]", content⟩, rest), drawn) ∧
      row ∈ rowsLeft pool.length before ∧
      (if rest = [] then List.range pool.length else rest) = rowsLeft pool.length (before ++ [row]) := by
  have hpos := List.length_pos_iff.2 hpool
  obtain ⟨position, drawn, hposition, hdraw, hrow⟩ := exists_drawRow_eq h hpos source
  have hmem := List.getElem_mem hposition
  have hlt := (mem_rowsLeft.1 hmem).1
  refine ⟨_, pool[(rowsLeft pool.length before)[position]], drawn, (rowsLeft pool.length before).eraseIdx position, hrow,
    List.getElem?_eq_getElem hlt, ?_, hmem, (h.rowsLeft_concat hposition).symm⟩
  rw [pickFromPool]
  dsimp only
  rw [hremaining, if_neg (h.rowsLeft_ne_nil hpos), runSource_bind, hdraw, List.getD_eq_getElem _ _ hposition,
    List.getD_eq_getElem _ _ hlt, h.length_rowsLeft hpos]
  rfl

section Plain
variable {t t' : Table} {roll : RollFormula σ}

private theorem run_picks_succ_of_list (h : t.lookup = none) (count : Nat) (remaining : List Nat) (source : σ) :
    ((picks roll (count + 1) remaining).run.run t).run source =
      match pickFromPool t.pool remaining source with
      | ((none, rest), drawn) => ((picks roll count rest).run.run t).run drawn
      | ((some p, rest), drawn) =>
        match (Marker.expand roll p.row).run.run drawn with
        | (.error why, expanded) => ((.error why, t), expanded)
        | (.ok (text, nested), expanded) =>
          match ((picks roll count rest).run.run t).run expanded with
          | ((.error why, t), after) => ((.error why, t), after)
          | ((.ok rolled, t), after) => ((.ok (⟨text, traced p.fragment nested⟩ :: rolled), t), after) := by
  have hrun : (pickFromPool t.pool remaining).run source = pickFromPool t.pool remaining source := rfl
  rw [run_picks_succ, pick_of_list h, hrun]
  obtain ⟨⟨picked, rest⟩, drawn⟩ := pickFromPool t.pool remaining source
  cases picked <;> rfl

/-- Picks from a table without a lookup read and write nothing else of it. -/
theorem run_picks_of_list (h : t.lookup = none) (h' : t'.lookup = none) (hpool : t'.pool = t.pool)
    (count : Nat) (remaining : List Nat) (source : σ) :
    ((picks roll count remaining).run.run t').run source =
      (((((picks roll count remaining).run.run t).run source).1.1, t'),
        (((picks roll count remaining).run.run t).run source).2) := by
  induction count generalizing remaining source with
  | zero => rfl
  | succ count ih =>
    rw [run_picks_succ_of_list h, run_picks_succ_of_list h', hpool]
    obtain ⟨⟨picked, rest⟩, source⟩ := pickFromPool t.pool remaining source
    cases picked with
    | none => exact ih rest source
    | some p =>
      dsimp only
      obtain ⟨outcome, source⟩ := (Marker.expand roll p.row).run.run source
      cases outcome with
      | error why => rfl
      | ok expanded =>
        dsimp only
        rw [ih]
        obtain ⟨⟨outcome, t⟩, source⟩ := ((picks roll count rest).run.run t).run source
        cases outcome <;> rfl

/-- What a pick gives, in the place that it has in its block. -/
def DrawnRow.rolled (size drawn : Nat) (d : DrawnRow) : Rolled := ⟨d.text, d.fragment size drawn⟩

private theorem picks_eq_ok_iff (h : t.lookup = none) (hpool : t.pool ≠ []) {before remaining : List Nat}
    (hbefore : Undrawn t.pool.length before)
    (hremaining : (if remaining = [] then List.range t.pool.length else remaining) = rowsLeft t.pool.length before)
    {count : Nat} {rolled : List Rolled} {source after : σ} :
    ((picks roll count remaining).run.run t).run source = ((.ok rolled, t), after) ↔
      ∃ drawn, drawn.length = count ∧ Draws t.pool roll before source drawn after ∧
        rolled = (drawn.zipIdx before.length).map fun (d, i) => d.rolled t.pool.length i := by
  induction count generalizing before remaining rolled source with
  | zero =>
    constructor
    · rintro ⟨⟩
      exact ⟨[], rfl, .nil before _, rfl⟩
    · rintro ⟨drawn, hlength, hdraws, rfl⟩
      obtain rfl := List.eq_nil_of_length_eq_zero hlength
      cases hdraws
      rfl
  | succ count ih =>
    obtain ⟨row, content, drawn, rest, hdraw, hcontent, hpick, hmem, hrest⟩ :=
      exists_pickFromPool_eq hbefore hpool hremaining source
    have ih' {rolled source} := @ih _ _ (.concat hbefore hmem) hrest rolled source
    rw [run_picks_succ_of_list h, hpick]
    dsimp only
    constructor
    · intro hrun
      split at hrun
      · cases hrun
      · rename_i text nested expanded hexpand
        split at hrun
        · cases hrun
        · rename_i hpicks
          cases hrun
          obtain ⟨drawn, rfl, hdraws, rfl⟩ := ih'.1 hpicks
          refine ⟨⟨row, text, nested⟩ :: drawn, rfl, .cons hdraw hcontent hexpand hdraws, ?_⟩
          rw [List.zipIdx_cons, List.map_cons, List.length_append, List.length_singleton]
          rfl
    · rintro ⟨_, hlength, hdraws, rfl⟩
      cases hdraws with
      | nil => cases hlength
      | @cons _ d content' rest' _ drawn' expanded _ hdraw' hcontent' hexpand hdraws =>
        obtain ⟨rfl, rfl⟩ : row = d.row ∧ drawn = drawn' := Prod.mk.inj (hdraw.symm.trans hdraw')
        obtain rfl : content = content' := Option.some.inj (hcontent.symm.trans hcontent')
        rw [hexpand]
        dsimp only
        rw [ih'.2 ⟨rest', by simpa using hlength, hdraws, rfl⟩]
        rw [List.zipIdx_cons, List.map_cons, List.length_append, List.length_singleton]
        rfl

/-- The table that rolls of a table leave, whatever they come to: it may differ in what it shows. -/
def Rerolled (t t' : Table) : Prop :=
  ∃ result fragment trace advisories, t' = { t with result, fragment, trace, advisories }

/-- A roll of a table without a lookup depends on nothing that a roll leaves. -/
theorem Rerolled.run_roll_of_list (hrerolled : t.Rerolled t') (h : t.lookup = none) (roll : RollFormula σ) (source : σ) :
    (t'.roll roll source).1.1 = (t.roll roll source).1.1 ∧ (t'.roll roll source).2 = (t.roll roll source).2 ∧
      t.Rerolled (t'.roll roll source).1.2 ∧
      ∀ v, (t.roll roll source).1.1 = .ok v → (t'.roll roll source).1.2 = (t.roll roll source).1.2 := by
  obtain ⟨result, fragment, trace, advisories, rfl⟩ := hrerolled
  rw [run_roll, run_roll t]
  have hpicks (t' : Table) (h' : t'.lookup = none) (hpool : t'.pool = t.pool) :
      ((picks roll t.reference.count []).run.run t').run source = _ :=
    run_picks_of_list h h' hpool t.reference.count [] source
  rw [hpicks { t with result, fragment, trace, advisories := [] } h rfl,
    hpicks { t with advisories := [] } h rfl]
  obtain ⟨⟨outcome, _⟩, after⟩ := ((picks roll t.reference.count []).run.run t).run source
  cases outcome with
  | error why => exact ⟨rfl, rfl, ⟨_, _, _, _, rfl⟩, nofun⟩
  | ok rolled => exact ⟨rfl, rfl, ⟨_, _, _, _, rfl⟩, fun _ _ => rfl⟩

private theorem roll_eq_ok_iff (h : t.lookup = none) (hpool : t.pool ≠ []) {v : RollValue} {source after : σ} :
    t.roll roll source = ((.ok v, t'), after) ↔
      ∃ drawn, drawn.length = t.reference.count ∧ Draws t.pool roll [] source drawn after ∧
        let rolled := drawn.zipIdx.map fun (d, i) => DrawnRow.rolled t.pool.length i d
        v = .text ("||".intercalate (rolled.map (·.value))) ∧
          t' = ({ t with advisories := [] } : Table).concluded t.text rolled := by
  have hstart : ({ t with advisories := [] } : Table).lookup = none := h
  have hpicks (rolled : List Rolled) := @picks_eq_ok_iff _ _ _ roll h hpool [] [] .nil
    (if_pos rfl |>.trans (rowsLeft_nil t.pool.length).symm) t.reference.count rolled source after
  have hself : ((picks roll t.reference.count []).run.run t).run source = _ :=
    run_picks_of_list h h rfl t.reference.count [] source
  rw [run_roll, run_picks_of_list h hstart rfl]
  constructor
  · intro hroll
    cases houtcome : (((picks roll t.reference.count []).run.run t).run source).1.1 with
    | error why =>
      rw [houtcome] at hroll
      cases hroll
    | ok rolled =>
      rw [houtcome] at hroll hself
      cases hroll
      obtain ⟨drawn, hlength, hdraws, rfl⟩ := (hpicks rolled).1 hself
      exact ⟨drawn, hlength, hdraws, rfl, rfl⟩
  · rintro ⟨drawn, hlength, hdraws, rfl, rfl⟩
    rw [(hpicks _).2 ⟨drawn, hlength, hdraws, rfl⟩]
    rfl

end Plain

/-- The table after a number of rolls, each with its own source. -/
def afterRolls (t : Table) (earlier : List (RollFormula σ × σ)) : Table :=
  earlier.foldl (fun t past => (t.roll past.1 past.2).1.2) t

private theorem rerolled_afterRolls {t : Table} (h : t.lookup = none) (earlier : List (RollFormula σ × σ)) :
    t.Rerolled (t.afterRolls earlier) := by
  have hfold (t' : Table) (hrerolled : t.Rerolled t') : t.Rerolled (t'.afterRolls earlier) := by
    induction earlier generalizing t' with
    | nil => exact hrerolled
    | cons past earlier ih => exact ih _ (hrerolled.run_roll_of_list h past.1 past.2).2.2.1
  exact hfold t ⟨_, _, _, _, rfl⟩

/-- A roll of a table without a lookup succeeds if rows can be drawn, as many as it asks for, and the formulas in them
rolled. Each block of draws, as long as the table, has no row twice, and a full block has every row once, whatever the
source answers. The trace of each draw tells how many rows were left and which row came. Rolls before it, whether they
failed or not, make no difference. -/
theorem roll_without_replacement (t : Table) (hlookup : t.lookup = none) (hpool : t.pool ≠ []) (roll : RollFormula σ)
    (source : σ) :
    (∀ v t' after, t.roll roll source = ((.ok v, t'), after) ↔
      ∃ drawn, drawn.length = t.reference.count ∧ Draws t.pool roll [] source drawn after ∧
        let result := "||".intercalate (drawn.map (·.text))
        let fragment := combine t.text (drawn.mapIdx fun i d => d.fragment t.pool.length i)
        v = .text result ∧
          t' = { t with result := some result, fragment, trace := Text.outline fragment, advisories := [] }) ∧
    (∀ drawn after, Draws t.pool roll [] source drawn after →
      (∀ d ∈ drawn, d.row < t.pool.length) ∧
        ∀ k, let block := ((drawn.map (·.row)).drop (k * t.pool.length)).take t.pool.length
          block.Nodup ∧ ((k + 1) * t.pool.length ≤ drawn.length → block.Perm (List.range t.pool.length))) ∧
    ∀ earlier : List (RollFormula σ × σ),
      let again := (t.afterRolls earlier).roll roll source
      again.1.1 = (t.roll roll source).1.1 ∧ again.2 = (t.roll roll source).2 ∧
        ∀ v, again.1.1 = .ok v → again.1.2 = (t.roll roll source).1.2 := by
  refine ⟨fun v t' after => ?_, fun drawn after hdraws => ?_, fun earlier => ?_⟩
  · have htexts (drawn : List DrawnRow) :
        (drawn.zipIdx.map fun (d, i) => DrawnRow.rolled t.pool.length i d).map (·.value) = drawn.map (·.text) := by
      conv_rhs => rw [← List.zipIdx_map_fst 0 drawn]
      simp only [List.map_map, Function.comp_def, DrawnRow.rolled]
    have hfragments (drawn : List DrawnRow) :
        (drawn.zipIdx.map fun (d, i) => DrawnRow.rolled t.pool.length i d).map (·.fragment) =
          drawn.mapIdx fun i d => d.fragment t.pool.length i := by
      simp only [List.mapIdx_eq_zipIdx_map, List.map_map, Function.comp_def, DrawnRow.rolled]
    simp only [roll_eq_ok_iff hlookup hpool, concluded, htexts, hfragments]
  · have hrows : Undrawn t.pool.length (drawn.map (·.row)) := hdraws.undrawn .nil hpool
    refine ⟨fun d hd => hrows.lt_of_mem (List.mem_map_of_mem hd), fun k => ⟨hrows.nodup_block k, fun hfull => ?_⟩⟩
    exact hrows.perm_block (by rwa [List.length_map])
  · obtain ⟨houtcome, hafter, -, htable⟩ := (rerolled_afterRolls hlookup earlier).run_roll_of_list hlookup roll source
    exact ⟨houtcome, hafter, fun v hv => htable v (houtcome ▸ hv)⟩

/-- Four of three gems. The second and the third answer lie outside what is asked for. -/
def gems : Table where
  text := "4[[Gems]]^all"
  reference := { count := 4, path := "Gems", block := "all" }
  pool := ["ruby", "topaz", "opal"]

theorem roll_without_replacement_gems :
    ∃ t', gems.roll (({} : Engine).rollWithin 20) (Script.mk [2, 9, -3, 1]) =
        ((.ok (.text "opal||topaz||ruby||topaz"), t'), Script.mk []) ∧
      t'.fragment = "4[[Gems]]^all ==> (3 rows --> [row 3] ||2 rows --> [row 2] ||1 rows --> [row 1] ||" ++
        "3 rows --> [row 2])" := by
  let roll : RollFormula Script := ({} : Engine).rollWithin 20
  have draws {before : List Nat} {d : DrawnRow} {rest : List DrawnRow} {source after : Script} (drawn : Script)
      (hdraw : drawRow gems.pool.length before source = (d.row, drawn))
      (hrow : gems.pool[d.row]? = some d.text ∧ Marker.cut d.text.toList = ⟨[], d.text.toList⟩ ∧ d.nested = [])
      (behind : Draws gems.pool roll (before ++ [d.row]) drawn rest after) :
      Draws gems.pool roll before source (d :: rest) after := by
    refine .cons hdraw hrow.1 ?_ behind
    rw [Marker.run_expand_of_cut hrow.2.1, hrow.2.2]
  have hdraws : Draws gems.pool roll [] (Script.mk [2, 9, -3, 1])
      [⟨2, "opal", []⟩, ⟨1, "topaz", []⟩, ⟨0, "ruby", []⟩, ⟨1, "topaz", []⟩] (Script.mk []) := by
    refine draws (Script.mk [9, -3, 1]) rfl (by decide +kernel) ?_
    refine draws (Script.mk [-3, 1]) rfl (by decide +kernel) ?_
    refine draws (Script.mk [1]) rfl (by decide +kernel) ?_
    exact draws (Script.mk []) rfl (by decide +kernel) (.nil _ _)
  have hsuccess := (roll_without_replacement gems rfl (List.cons_ne_nil _ _) roll (Script.mk [2, 9, -3, 1])).1
  exact ⟨_, (hsuccess _ _ _).2 ⟨_, rfl, hdraws, rfl, rfl⟩, by decide +kernel⟩

end Table
end Tabletop
