import Mathlib.Data.List.Chain
import Tabletop.Proofs.Text.Splitting
import Tabletop.Proofs.Text.Trimming
import Tabletop.Table.Markdown

/-! Tables written in markdown and read again. Cells come back as they are, the empty ones aside: a bar in a cell stands
behind a backslash, and the blanks that stand around each cell keep the last character of a cell from the bar. -/
namespace Tabletop.Markdown

/-- A text that can be written as a cell: no blanks at its ends, all in one line, and each bar behind a backslash. -/
structure IsCell (cell : String) : Prop where
  trimmed : Text.trimChars cell.toList = cell.toList
  line : '\n' ∉ cell.toList
  bars : (' ' :: cell.toList).IsChain fun a b => b = '|' → a = '\\'

private theorem isChain_of_not_mem {prior : Char} {cs : List Char} (h : '|' ∉ cs) :
    (prior :: cs).IsChain fun a b => b = '|' → a = '\\' := by
  induction cs generalizing prior with
  | nil => exact List.isChain_singleton prior
  | cons c cs ih =>
    rw [List.mem_cons, not_or] at h
    exact List.isChain_cons_cons.2 ⟨fun hbar => absurd hbar.symm h.1, ih h.2⟩

/-- A word without bars can be written as a cell. -/
theorem IsCell.of_forall {cell : String} (h : ∀ c ∈ cell.toList, Text.isBlank c = false ∧ c ≠ '|') : IsCell cell := by
  refine ⟨Text.trimChars_eq_self_iff.2 ⟨fun c hc => ?_, fun c hc => ?_⟩, fun hline => ?_, isChain_of_not_mem fun hbar => ?_⟩
  · exact (h c (List.mem_of_mem_head? hc)).1
  · exact (h c (List.mem_of_mem_getLast? hc)).1
  · exact absurd (h _ hline).1 (by decide)
  · exact (h _ hbar).2 rfl

/-- What stands between the outer bars of a line. -/
def inside (cells : List String) : List Char :=
  ' ' :: ([' ', '|', ' '].intercalate (cells.map String.toList) ++ [' '])

def writeLine (cells : List String) : String := "| " ++ " | ".intercalate cells ++ " |"

/-- A line of headers, a separator line, and a line for each row. -/
def write (headers : List String) (separator : String) (rows : List (List String)) : String :=
  "\n".intercalate (writeLine headers :: separator :: rows.map writeLine)

private theorem cutCells_of_escaped {prior : Char} {cs : List Char}
    (h : (prior :: cs).IsChain fun a b => b = '|' → a = '\\') : cutCells (prior == '\\') cs = [cs] := by
  induction cs generalizing prior with
  | nil => rfl
  | cons c cs ih =>
    obtain ⟨hbar, hrest⟩ := List.isChain_cons_cons.1 h
    have hkeep : ¬ (c = '|' ∧ !(prior == '\\')) := by simpa using hbar
    rw [cutCells, if_neg hkeep, ih hrest]

private theorem cutCells_append_bar {prior : Char} {cs : List Char}
    (h : (prior :: cs).IsChain fun a b => b = '|' → a = '\\') (hlast : (prior :: cs).getLast? ≠ some '\\')
    (rest : List Char) : cutCells (prior == '\\') (cs ++ '|' :: rest) = cs :: cutCells false rest := by
  induction cs generalizing prior with
  | nil =>
    have hprior : prior ≠ '\\' := by simpa using hlast
    simp [cutCells, hprior]
  | cons c cs ih =>
    obtain ⟨hbar, hrest⟩ := List.isChain_cons_cons.1 h
    have hkeep : ¬ (c = '|' ∧ !(prior == '\\')) := by simpa using hbar
    rw [List.getLast?_cons_cons] at hlast
    rw [List.cons_append, cutCells, if_neg hkeep, ih hrest hlast]

/-- A cell with the blanks around it is not cut. -/
theorem IsCell.padded {cell : String} (h : IsCell cell) :
    (' ' :: ' ' :: (cell.toList ++ [' '])).IsChain fun a b => b = '|' → a = '\\' := by
  refine List.isChain_cons_cons.2 ⟨by simp, ?_⟩
  rw [← List.cons_append]
  exact h.bars.append (List.isChain_singleton _) (by simp)

private theorem cutCells_inside {cells : List String} (hne : cells ≠ []) (h : ∀ cell ∈ cells, IsCell cell) :
    cutCells false (inside cells) = cells.map fun cell => ' ' :: (cell.toList ++ [' ']) := by
  have hspace : (' ' == '\\') = false := by decide
  induction cells with
  | nil => exact absurd rfl hne
  | cons cell cells ih =>
    obtain ⟨hcell, hrest⟩ := List.forall_mem_cons.1 h
    cases cells with
    | nil =>
      rw [inside, List.map_singleton, List.intercalate_singleton, ← hspace, cutCells_of_escaped hcell.padded]
      rfl
    | cons next cells =>
      have hinside : inside (cell :: next :: cells) =
          (' ' :: (cell.toList ++ [' '])) ++ '|' :: inside (next :: cells) := by
        simp [inside, List.intercalate_cons_cons]
      have hlast : (' ' :: ' ' :: (cell.toList ++ [' '])).getLast? ≠ some '\\' := by
        rw [← List.cons_append, ← List.cons_append, List.getLast?_concat]
        decide
      rw [hinside, ← hspace, cutCells_append_bar hcell.padded hlast, ih (List.cons_ne_nil _ _) hrest]
      rfl

private theorem toList_writeLine (cells : List String) : (writeLine cells).toList = '|' :: (inside cells ++ ['|']) := by
  simp [writeLine, inside]

private theorem stripBars_writeLine (cells : List String) : stripBars (writeLine cells).toList = inside cells := by
  have htrim : Text.trimChars ('|' :: (inside cells ++ ['|'])) = '|' :: (inside cells ++ ['|']) := by
    rw [Text.trimChars_eq_self_iff, ← List.cons_append, List.getLast?_concat]
    refine ⟨?_, ?_⟩ <;> rintro c ⟨⟩ <;> decide
  have hstart : Text.stripStart? ['|'] ('|' :: (inside cells ++ ['|'])) = some (inside cells ++ ['|']) :=
    Text.stripStart?_eq_some_iff.2 rfl
  have hend : (inside cells).reverse.head? = some ' ' := by
    rw [List.head?_reverse, inside, ← List.cons_append, List.getLast?_concat]
  rw [toList_writeLine, stripBars, htrim, hstart]
  simp only [Option.getD_some, List.reverse_append, List.reverse_singleton, List.singleton_append, hend]
  rw [if_neg (by decide), List.reverse_reverse]

private theorem lineCells_writeLine {cells : List String} (hne : cells ≠ []) (h : ∀ cell ∈ cells, IsCell cell) :
    lineCells (writeLine cells).toList = cells := by
  have hread (cell : String) (hcell : cell ∈ cells) :
      String.ofList (Text.trimChars (' ' :: (cell.toList ++ [' ']))) = cell := by
    rw [Text.trimChars_padded (h cell hcell).trimmed, String.ofList_toList]
  rw [lineCells, splitCells, stripBars_writeLine, cutCells_inside hne h]
  simp only [List.map_map, Function.comp_def]
  rw [List.map_congr_left hread, List.map_id']

private theorem not_mem_writeLine {cells : List String} (h : ∀ cell ∈ cells, IsCell cell) :
    '\n' ∉ (writeLine cells).toList := by
  have hjoined : '\n' ∉ [' ', '|', ' '].intercalate (cells.map String.toList) := by
    induction cells with
    | nil => decide
    | cons cell cells ih =>
      obtain ⟨hcell, hrest⟩ := List.forall_mem_cons.1 h
      cases cells with
      | nil => simpa using hcell.line
      | cons next cells => simpa [List.intercalate_cons_cons, hcell.line] using ih hrest
  simp [toList_writeLine, inside, hjoined]

private theorem writeLine_getLast? (cells : List String) : (writeLine cells).toList.getLast? = some '|' := by
  rw [toList_writeLine, ← List.cons_append, List.getLast?_concat]

variable {headers : List String} {separator ending : String} {rows : List (List String)}

/-- The lines of a written table, with or without an end of the last. The separator line may be any. -/
theorem lines_write (hheaders : ∀ cell ∈ headers, IsCell cell) (hseparator : '\n' ∉ separator.toList)
    (hrows : ∀ cells ∈ rows, ∀ cell ∈ cells, IsCell cell) (hending : ending = "" ∨ ending = "\n") :
    let lines := Text.lines (write headers separator rows ++ ending).toList
    lines.head? = some (writeLine headers).toList ∧ lines.drop 2 = rows.map fun cells => (writeLine cells).toList := by
  have hends (cells : List String) : Text.dropReturn (writeLine cells).toList = (writeLine cells).toList := by
    rw [Text.dropReturn_of_getLast?]
    rw [writeLine_getLast?]
    decide
  have hrest : Text.endLines (rows.map fun cells => (writeLine cells).toList) =
      rows.map fun cells => (writeLine cells).toList := by
    refine Text.endLines_of_getLast? fun line hline => ?_
    obtain ⟨cells, -, rfl⟩ := List.mem_map.1 hline
    exact ⟨by simp [toList_writeLine], by rw [writeLine_getLast?]; decide⟩
  have hsplit : Text.splitOn '\n' (write headers separator rows).toList =
      (writeLine headers).toList :: separator.toList :: rows.map fun cells => (writeLine cells).toList := by
    rw [Text.splitOn_eq_splitOn, write, String.toList_intercalate]
    refine (List.splitOn_intercalate '\n' ?_ (by simp)).trans (by simp)
    simp only [List.map_cons, List.map_map, List.forall_mem_cons, List.forall_mem_map]
    exact ⟨not_mem_writeLine hheaders, hseparator, fun cells hcells => not_mem_writeLine (hrows cells hcells)⟩
  rcases hending with rfl | rfl
  · rw [String.append_empty, Text.lines, hsplit]
    cases hlines : rows.map fun cells => (writeLine cells).toList with
    | nil => by_cases hempty : separator.toList = [] <;> simp [Text.endLines, hends, hempty]
    | cons line lines =>
      rw [hlines] at hrest
      simp [Text.endLines, hrest, hends]
  · have hsplit' : Text.splitOn '\n' (write headers separator rows ++ "\n").toList =
        Text.splitOn '\n' (write headers separator rows).toList ++ [[]] := by
      rw [String.toList_append]
      exact Text.splitBy_concat rfl _
    rw [Text.lines, hsplit', hsplit, Text.endLines_concat_nil]
    simp [hends]

/-- A table reads as it was written: its headers, the cells of its rows that are not empty, and its columns. -/
theorem ofText_write (hheaders : headers ≠ [] ∧ ∀ cell ∈ headers, IsCell cell) (hseparator : '\n' ∉ separator.toList)
    (hrows : ∀ cells ∈ rows, cells ≠ [] ∧ ∀ cell ∈ cells, IsCell cell) (hending : ending = "" ∨ ending = "\n") :
    ofText (write headers separator rows ++ ending) =
      { headers := headers.zipIdx.map fun (h, i) => nameHeader h i
        rows := (rows.map fun cells => cells.filter (· ≠ "")).filter (· ≠ [])
        columns := rows.foldl extendColumns (headers.zipIdx.map fun _ => []) } := by
  obtain ⟨hfirst, hbody⟩ :=
    lines_write hheaders.2 hseparator (fun cells hcells => (hrows cells hcells).2) hending
  have hcells : (rows.map fun cells => (writeLine cells).toList).map lineCells = rows := by
    have hread (cells : List String) (hmem : cells ∈ rows) : lineCells (writeLine cells).toList = cells :=
      lineCells_writeLine (hrows cells hmem).1 (hrows cells hmem).2
    rw [List.map_map, Function.comp_def, List.map_congr_left hread, List.map_id']
  obtain ⟨rest, hlines⟩ := List.head?_eq_some_iff.1 hfirst
  rw [ofText]
  dsimp only
  rw [hbody, hcells, hlines]
  dsimp only
  rw [lineCells_writeLine hheaders.1 hheaders.2, List.map_map]
  rfl

end Tabletop.Markdown
