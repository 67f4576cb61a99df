import Tabletop.Proofs.Table.Written

/-! The columns of a table that was written in markdown. Each is what its rows hold at its place, however long the rows
are: one that is too short gives nothing, and what a longer one has past the last header is in no column. -/
namespace Tabletop.Markdown

/-- The cells that stand at place `i` in their rows, without the empty ones. -/
def columnOf (rows : List (List String)) (i : Nat) : List String :=
  rows.filterMap fun cells => cells[i]?.filter (· ≠ "")

private theorem columnOf_cons (cells : List String) (rows : List (List String)) (i : Nat) :
    columnOf (cells :: rows) i = (cells[i]?.filter (· ≠ "")).toList ++ columnOf rows i := by
  rw [columnOf, List.filterMap_cons, ← columnOf]
  cases cells[i]?.filter (· ≠ "") <;> rfl

private theorem getElem?_extendColumns (columns : List (List String)) (cells : List String) (i : Nat) :
    (extendColumns columns cells)[i]? =
      columns[i]?.map fun column => column ++ (cells[i]?.filter (· ≠ "")).toList := by
  induction columns generalizing cells i with
  | nil => rfl
  | cons column columns ih =>
    cases cells with
    | nil => simp [extendColumns]
    | cons cell cells =>
      cases i with
      | succ i => simpa [extendColumns] using ih cells i
      | zero => by_cases hcell : cell = "" <;> simp [extendColumns, hcell, Option.filter]

private theorem getElem?_foldl_extendColumns (rows columns : List (List String)) (i : Nat) :
    (rows.foldl extendColumns columns)[i]? = columns[i]?.map (· ++ columnOf rows i) := by
  induction rows generalizing columns with
  | nil => simp [columnOf]
  | cons cells rows ih =>
    rw [List.foldl_cons, ih, getElem?_extendColumns, Option.map_map, columnOf_cons]
    simp only [Function.comp_def, List.append_assoc]

/-- There is a column for each header. -/
theorem foldl_extendColumns (headers : List String) (rows : List (List String)) :
    rows.foldl extendColumns (headers.zipIdx.map fun _ => []) = (List.range headers.length).map (columnOf rows) := by
  apply List.ext_getElem?
  intro i
  rw [getElem?_foldl_extendColumns, List.getElem?_map, List.getElem?_map, Option.map_map]
  by_cases hi : i < headers.length <;> simp [hi]

variable {headers : List String} {separator ending : String} {rows : List (List String)}

/-- A table is read as it was written. An empty header is the number of its column, an empty cell is left out, and so is
a row of nothing else. A cell may hold bars behind backslashes and, between its blanks, even end in a backslash. -/
theorem ofText_eq_cells (hheaders : headers ≠ [] ∧ ∀ cell ∈ headers, IsCell cell)
    (hseparator : '\n' ∉ separator.toList) (hrows : ∀ cells ∈ rows, cells ≠ [] ∧ ∀ cell ∈ cells, IsCell cell)
    (hending : ending = "" ∨ ending = "\n") :
    ofText (write headers separator rows ++ ending) =
      { headers := headers.zipIdx.map fun (header, i) => if header = "" then toString i else header
        rows := (rows.map fun cells => cells.filter (· ≠ "")).filter (· ≠ [])
        columns := (List.range headers.length).map (columnOf rows) } := by
  rw [ofText_write hheaders hseparator hrows hending, foldl_extendColumns]
  rfl

/-- A bar in a cell, a header and cells that are empty, and rows of one, two and three cells. -/
theorem ofText_eq_cells_weapons :
    let headers := ["", "Damage"]
    let rows := [["Axe \\| Hatchet", "1d6"], ["", ""], ["Bow"], ["", "1d4", "thrown\\"]]
    (∀ cell ∈ headers ++ rows.flatten, IsCell cell) ∧
      write headers "|-|-|" rows ++ "\n" =
        "|  | Damage |\n|-|-|\n| Axe \\| Hatchet | 1d6 |\n|  |  |\n| Bow |\n|  | 1d4 | thrown\\ |\n" ∧
      ofText (write headers "|-|-|" rows ++ "\n") =
        { headers := ["0", "Damage"]
          rows := [["Axe \\| Hatchet", "1d6"], ["Bow"], ["1d4", "thrown\\"]]
          columns := [["Axe \\| Hatchet", "Bow"], ["1d6", "1d4"]] } := by
  intro headers rows
  have hcell : ∀ cell ∈ headers ++ rows.flatten, IsCell cell := by
    have hall : ∀ cell ∈ headers ++ rows.flatten, Text.trimChars cell.toList = cell.toList ∧ '\n' ∉ cell.toList ∧
        (' ' :: cell.toList).IsChain fun a b => b = '|' → a = '\\' := by decide
    exact fun cell hmem => ⟨(hall cell hmem).1, (hall cell hmem).2.1, (hall cell hmem).2.2⟩
  have hrows : ∀ cells ∈ rows, cells ≠ [] ∧ ∀ cell ∈ cells, IsCell cell := fun cells hmem =>
    ⟨(by decide : ∀ cells ∈ rows, cells ≠ []) cells hmem,
      fun cell hin => hcell cell (List.mem_append_right _ (List.mem_flatten_of_mem hmem hin))⟩
  refine ⟨hcell, by decide +kernel, ?_⟩
  have hheaders : headers ≠ [] ∧ ∀ cell ∈ headers, IsCell cell :=
    ⟨by decide, fun cell hmem => hcell cell (List.mem_append_left _ hmem)⟩
  rw [ofText_eq_cells hheaders (by decide) hrows (.inr rfl)]
  decide

end Tabletop.Markdown
