import Tabletop.Proofs.Number.Order
import Tabletop.Proofs.Table.Columns
import Tabletop.Proofs.Table.Loading
import Tabletop.Proofs.Text.Digits

/-! Lookup tables written in markdown. The numbers in front of the rows are read as the ranges that were meant, and a
whole number selects the rows whose ranges have it. -/
namespace Tabletop

/-- A row of a lookup table as it is written: one number, or the first and the last of several. -/
structure LookupRow where
  low : Nat
  high : Option Nat
  option : String

namespace LookupRow

/-- The first cell of the row. -/
def cell (r : LookupRow) : String :=
  match r.high with
  | none => toString r.low
  | some high => toString r.low ++ "-" ++ toString high

def range (r : LookupRow) : LookupRange := ⟨.ofNat r.low, r.high.map .ofNat, r.option⟩

/-- Whether a value selects the row. -/
def covers (r : LookupRow) (value : Int) : Bool :=
  match r.high with
  | none => value = r.low
  | some high => r.low ≤ value && value ≤ high

/-- The numbers are doubles without loss, and there is something to give. -/
structure Valid (r : LookupRow) : Prop where
  low : r.low < exactLimit
  high : ∀ high ∈ r.high, high < exactLimit
  filled : r.option ≠ ""
  option : Markdown.IsCell r.option

variable {r : LookupRow}

private theorem runs_cell (r : LookupRow) :
    (Text.splitBy (!Text.isDigit ·) r.cell.toList).filter (· ≠ []) =
      (toString r.low).toList :: (r.high.map fun high => (toString high).toList).toList := by
  have hdigits (n : Nat) : ∀ c ∈ (toString n).toList, (!Text.isDigit c) = false := fun c hc => by
    rw [Text.isDigit_of_mem_toString hc, Bool.not_true]
  rw [Text.splitBy_eq_splitOnP, cell]
  cases r.high with
  | none =>
    rw [List.splitOnP_eq_singleton (hdigits r.low)]
    simp
  | some high =>
    have hcell : (toString r.low ++ "-" ++ toString high).toList =
        (toString r.low).toList ++ '-' :: (toString high).toList := by simp
    dsimp only
    rw [hcell, List.splitOnP_append_cons_of_forall_mem (hdigits r.low) '-' (by decide),
      List.splitOnP_eq_singleton (hdigits high)]
    simp

private theorem ofCell?_cell (h : r.Valid) : LookupRange.ofCell? r.cell r.option = some r.range := by
  have hread {n : Nat} (hn : n < exactLimit) : Text.readWhole? (toString n).toList = some (.ofNat n) :=
    Text.readWhole?_toString (Int64.toInt_ofNat_of_lt (Nat.lt_trans hn (by decide)))
  rw [LookupRange.ofCell?, runs_cell]
  dsimp only
  rw [hread h.low, range]
  cases hhigh : r.high with
  | none => rfl
  | some high =>
    simp only [Option.map_some, Option.toList_some, List.head?_cons, Option.bind_some, hread (h.high high hhigh)]
    rfl

private theorem toInt_ofNat {n : Nat} (h : n < exactLimit) : (Int64.ofNat n).toInt = n :=
  Int64.toInt_ofNat_of_lt (Nat.lt_trans h (by decide))

/-- Comparing doubles does not lead a whole value, however large, to a row that does not have it. -/
theorem contains_range (h : r.Valid) (value : Int64) : r.range.contains (.whole value) = r.covers value.toInt := by
  have hexact {n : Nat} (hn : n < exactLimit) : (n : Int).natAbs < exactLimit := by rwa [Int.natAbs_natCast]
  rw [LookupRange.contains, covers, range]
  cases hhigh : r.high with
  | none =>
    simp only [Option.map_none]
    rw [Number.whole_beq_iff, toInt_ofNat h.low, decide_eq_decide, nearestWhole_eq_iff (hexact h.low)]
  | some high =>
    have hhigh := h.high high hhigh
    simp only [Option.map_some]
    rw [Number.compare?_le_iff, Number.compare?_le_iff, toInt_ofNat h.low, toInt_ofNat hhigh]
    simp only [nearestWhole_le_iff (hexact h.low), nearestWhole_ge_iff (hexact hhigh)]

private theorem mem_cell {c : Char} (h : c ∈ r.cell.toList) : Text.isDigit c = true ∨ c = '-' := by
  rw [cell] at h
  cases hhigh : r.high with
  | none =>
    rw [hhigh] at h
    exact .inl (Text.isDigit_of_mem_toString h)
  | some high =>
    rw [hhigh, String.toList_append, String.toList_append, List.mem_append, List.mem_append] at h
    rcases h with (hlow | hdash) | hhigh
    · exact .inl (Text.isDigit_of_mem_toString hlow)
    · exact .inr (List.mem_singleton.1 hdash)
    · exact .inl (Text.isDigit_of_mem_toString hhigh)

private theorem isCell_cell (r : LookupRow) : Markdown.IsCell r.cell := by
  refine .of_forall fun c hc => ?_
  rcases mem_cell hc with hdigit | rfl
  · refine ⟨?_, ?_⟩
    · by_contra hblank
      rw [Text.isDigit_eq_false_of_isBlank (by simpa using hblank)] at hdigit
      cases hdigit
    · rintro rfl
      exact absurd hdigit (by decide)
  · decide

private theorem cell_ne_empty (r : LookupRow) : r.cell ≠ "" := by
  have hlow := Text.toString_ne_nil r.low
  rw [ne_eq, ← String.toList_eq_nil_iff, cell]
  cases r.high with
  | none => exact hlow
  | some high => simp

end LookupRow

namespace Markdown

/-- A formula that can stand behind `dice:` in a header. -/
structure IsFormula (formula : String) : Prop where
  cell : IsCell formula
  filled : formula ≠ ""
  colon : ':' ∉ formula.toList

variable {formula second separator : String} {rows : List LookupRow}

private theorem IsFormula.header (h : IsFormula formula) : IsCell ("dice: " ++ formula) := by
  have hne : formula.toList ≠ [] := by
    rw [ne_eq, String.toList_eq_nil_iff]
    exact h.filled
  obtain ⟨-, hend⟩ := Text.trimChars_eq_self_iff.1 h.cell.trimmed
  refine ⟨Text.trimChars_eq_self_iff.2 ⟨?_, ?_⟩, ?_, ?_⟩
  · simp [Text.isBlank, Text.inRanges, Text.blankRanges]
  · rw [String.toList_append, List.getLast?_append_of_ne_nil _ hne]
    exact hend
  · simp [h.cell.line]
  · have hfront : (' ' :: "dice:".toList).IsChain fun a b => b = '|' → a = '\\' := by decide
    have happend := hfront.append h.cell.bars (by simp)
    simpa using happend

/-- A lookup table as it is written. -/
def writeLookup (formula second separator : String) (rows : List LookupRow) : String :=
  write ["dice: " ++ formula, second] separator (rows.map fun r => [r.cell, r.option])

private theorem ofText_writeLookup (hformula : IsFormula formula) (hsecond : IsCell second)
    (hseparator : '\n' ∉ separator.toList) (hrows : ∀ r ∈ rows, r.Valid) :
    let t := ofText (writeLookup formula second separator rows)
    t.headers = ["dice: " ++ formula, nameHeader second 1] ∧ t.rows = rows.map (fun r => [r.cell, r.option]) ∧
      t.columns.length = 2 := by
  have hcells : ∀ cells ∈ rows.map (fun r => [r.cell, r.option]), cells ≠ [] ∧ ∀ cell ∈ cells, IsCell cell := by
    rintro _ hmem
    obtain ⟨r, hr, rfl⟩ := List.mem_map.1 hmem
    refine ⟨List.cons_ne_nil _ _, ?_⟩
    rw [List.forall_mem_cons, List.forall_mem_singleton]
    exact ⟨r.isCell_cell, (hrows r hr).option⟩
  have hheaders : ∀ cell ∈ ["dice: " ++ formula, second], IsCell cell := by
    rw [List.forall_mem_cons, List.forall_mem_singleton]
    exact ⟨hformula.header, hsecond⟩
  rw [writeLookup, ← String.append_empty (s := write _ _ _),
    ofText_write ⟨List.cons_ne_nil _ _, hheaders⟩ hseparator hcells (.inl rfl)]
  have hfilled : ∀ cells ∈ rows.map (fun r => [r.cell, r.option]), cells.filter (· ≠ "") = cells := by
    rintro _ hmem
    obtain ⟨r, hr, rfl⟩ := List.mem_map.1 hmem
    simp [r.cell_ne_empty, (hrows r hr).filled]
  refine ⟨?_, ?_, ?_⟩
  · simp [nameHeader]
  · dsimp only
    rw [List.map_congr_left hfilled, List.map_id', List.filter_eq_self]
    simp
  · dsimp only
    rw [foldl_extendColumns, List.length_map, List.length_range]
    rfl

private theorem lookupFormula?_writeLookup (hformula : IsFormula formula) (hsecond : IsCell second)
    (hseparator : '\n' ∉ separator.toList) (hrows : ∀ r ∈ rows, r.Valid) :
    (ofText (writeLookup formula second separator rows)).lookupFormula? = some formula := by
  obtain ⟨hheaders, -, -⟩ := ofText_writeLookup hformula hsecond hseparator hrows
  have hmark : Text.splitFirst? "dice:".toList ("dice: " ++ formula).toList = some ([], ' ' :: formula.toList) := by
    rw [Text.splitFirst?_eq_some_iff (by decide), List.nil_append]
    exact ⟨by simp, Text.not_infix_dropLast (by decide)⟩
  have hsplit : Text.splitOn ':' (' ' :: formula.toList) = [' ' :: formula.toList] := by
    rw [Text.splitOn_eq_splitOn, List.splitOn_eq_singleton]
    simpa using hformula.colon
  have htrim : Text.trimChars (' ' :: formula.toList) = formula.toList := by
    rw [Text.trimChars, Text.trimStart_cons_of_isBlank (by decide)]
    exact hformula.cell.trimmed
  have hne : formula.toList ≠ [] := by
    rw [ne_eq, String.toList_eq_nil_iff]
    exact hformula.filled
  have hlast : Text.trimChars ((Text.splitOn ':' (' ' :: formula.toList)).getLastD []) = formula.toList := by
    rw [hsplit]
    exact htrim
  rw [lookupFormula?, hheaders]
  dsimp only
  rw [hmark]
  simp only [Option.bind_eq_bind, Option.bind_some, hlast, if_neg hne, String.ofList_toList]

private theorem lookupRanges_writeLookup (hformula : IsFormula formula) (hsecond : IsCell second)
    (hseparator : '\n' ∉ separator.toList) (hrows : ∀ r ∈ rows, r.Valid) :
    (ofText (writeLookup formula second separator rows)).lookupRanges = rows.map LookupRow.range := by
  obtain ⟨-, hcells, -⟩ := ofText_writeLookup hformula hsecond hseparator hrows
  rw [lookupRanges, hcells, List.filterMap_map, ← List.filterMap_eq_map]
  exact List.filterMap_congr fun r hr => LookupRow.ofCell?_cell (hrows r hr)

private theorem isSome_column?_writeLookup (hformula : IsFormula formula) (hsecond : IsCell second)
    (hseparator : '\n' ∉ separator.toList) (hrows : ∀ r ∈ rows, r.Valid) {header : String}
    (h : header = "dice: " ++ formula ∨ header = nameHeader second 1) :
    ((ofText (writeLookup formula second separator rows)).column? header).isSome = true := by
  obtain ⟨hheaders, -, hcolumns⟩ := ofText_writeLookup hformula hsecond hseparator hrows
  have hmem : header ∈ (ofText (writeLookup formula second separator rows)).headers := by
    rw [hheaders]
    simpa using h
  obtain ⟨i, hi⟩ := Option.isSome_iff_exists.1 (List.isSome_idxOf?.2 hmem)
  obtain ⟨hlt, -⟩ := List.idxOf?_eq_some_iff.1 hi
  rw [hheaders] at hlt
  have hcolumn : i < (ofText (writeLookup formula second separator rows)).columns.length := by
    rw [hcolumns]
    exact hlt
  rw [column?, hi, Option.bind_some, List.getElem?_eq_getElem hcolumn]
  rfl

end Markdown

namespace Table
variable {store : Store} {build : String → Except RollError (Option Expression)} {text formula second separator : String}
  {r : Reference} {rows : List LookupRow} {e : Expression}

/-- A reference to a written lookup table is loaded with the ranges of the rows, unless it names a header that the table
does not have. -/
theorem load_writeLookup (hread : Reference.read text = .ok r) (hblock : store.blocks.lookup (Store.key r.path r.block) =
      some (.markdown (Markdown.writeLookup formula second separator rows)))
    (hformula : Markdown.IsFormula formula) (hsecond : Markdown.IsCell second)
    (hseparator : '\n' ∉ separator.toList) (hrows : ∀ r ∈ rows, r.Valid) (hbuild : build formula = .ok (some e)) :
    (∀ t, load store build text = .ok t → t.reference = r ∧ t.lookup = some ⟨e, rows.map LookupRow.range⟩) ∧
      ((∀ header ∈ r.header, header = "dice: " ++ formula ∨ header = Markdown.nameHeader second 1) →
        ∃ t, load store build text = .ok t) := by
  have hlookup : lookupOf build (.markdown (Markdown.writeLookup formula second separator rows)) =
      .ok (some ⟨e, rows.map LookupRow.range⟩) := by
    rw [lookupOf]
    simp only [Markdown.lookupFormula?_writeLookup hformula hsecond hseparator hrows,
      Markdown.lookupRanges_writeLookup hformula hsecond hseparator hrows, hbuild]
    rfl
  rw [load_of_fetch hread hblock, hlookup]
  constructor
  · intro t ht
    cases hpool : rowsOf r (.markdown (Markdown.writeLookup formula second separator rows)) with
    | error why =>
      rw [hpool] at ht
      cases ht
    | ok pool =>
      rw [hpool] at ht
      cases ht
      exact ⟨rfl, rfl⟩
  · intro hheader
    obtain ⟨pool, hpool⟩ :
        ∃ pool, rowsOf r (.markdown (Markdown.writeLookup formula second separator rows)) = .ok pool := by
      rw [rowsOf]
      cases hr : r.header with
      | none => exact ⟨_, rfl⟩
      | some header =>
        obtain ⟨column, hcolumn⟩ := Option.isSome_iff_exists.1
          (Markdown.isSome_column?_writeLookup hformula hsecond hseparator hrows (hheader header hr))
        simp only [hcolumn]
        exact ⟨_, rfl⟩
    rw [hpool]
    exact ⟨_, rfl⟩

end Table
end Tabletop
