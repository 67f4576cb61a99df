import Tabletop.Expression
import Tabletop.Table.Expand
import Tabletop.Table.Range
import Tabletop.Table.Reference
import Tabletop.Table.Store
import Tabletop.Text.Outline

/-! Tables that can be rolled. A plain table gives rows by chance and none twice before all have come; a
lookup table rolls a formula and gives the row whose range holds the value. Formulas in the rows are
rolled in place. -/
namespace Tabletop

/-- The formula of a lookup table and the rows it selects. -/
structure Lookup where
  formula : Expression
  ranges : List LookupRange
  deriving Repr

/-- A table loaded for rolling. `text` is the reference as written. -/
structure Table where
  text : String
  reference : Reference
  pool : List String
  lookup : Option Lookup := none
  result : Option String := none
  fragment : String := ""
  trace : String := ""
  advisories : List Advisory := []
  deriving Repr

/-- One pick: how it came about, and the text of the row before its formulas are rolled. -/
structure Pick where
  fragment : String
  row : String
  deriving DecidableEq, Repr

/-- A roll of a table. Advisories and the state of the lookup formula outlast a failure. -/
abbrev TableM (σ : Type) := ExceptT RollError (StateT Table (StateM σ))

namespace Table

/-- The rows that a reference selects from. -/
def rowsOf (reference : Reference) : TableSource → Except RollError (List String)
  | .list rows => .ok rows
  | .markdown content =>
    let t := Markdown.ofText content
    match reference.header with
    | none => .ok t.rowTexts
    | some header =>
      match t.column? header with
      | some column => .ok column
      | none => .error (.missingReference reference.path reference.block reference.header)

/-- The lookup of a markdown table whose header has the formula of an expression. `build` reads the
formula and gives nothing for one of another kind. -/
def lookupOf (build : String → Except RollError (Option Expression)) :
    TableSource → Except RollError (Option Lookup)
  | .list _ => .ok none
  | .markdown content => do
    let t := Markdown.ofText content
    match t.lookupFormula? with
    | none => return none
    | some formula => return (← build formula).map fun e => ⟨e, t.lookupRanges⟩

/-- Loads the table that a text refers to. -/
def load (store : Store) (build : String → Except RollError (Option Expression)) (text : String) :
    Except RollError Table := do
  let text := Text.trim text
  let reference ← (Reference.read text).mapError .unreadable
  let source ← store.fetch reference.path reference.block
  let lookup ← lookupOf build source
  let pool ← rowsOf reference source
  return { text, reference, pool, lookup }

variable {σ : Type} [RandomSource σ]

/-- Rolls the lookup formula and finds its row. A value outside all ranges is noted and picks nothing. -/
def pickByLookup (lookup : Lookup) : TableM σ (Option Pick) := do
  let (outcome, formula) ← (lookup.formula.roll : StateM σ _)
  modify fun t => { t with lookup := some { lookup with formula } }
  let value ← liftM outcome
  match lookup.ranges.find? (·.contains value) with
  | some range =>
    let header := (← get).reference.header
    let how := match header with
      | some header => formula.fragment ++ " | " ++ header
      | none => formula.fragment
    return some ⟨how, range.option⟩
  | none =>
    let miss := Advisory.rangeMiss formula.formula.text value.text
    modify fun t => { t with advisories := t.advisories ++ [miss] }
    return none

/-- Draws a position below `n`, which is not zero. An answer outside the range goes to its nearer end. -/
def drawPosition (n : Nat) : StateM σ Nat := fun source =>
  let last := n - 1
  let (value, source) := RandomSource.between 0 (Int64.ofNat last) source
  (min value.toInt.toNat last, source)

/-- Draws one of the remaining row numbers, all of them again once there are none left. -/
def pickFromPool (pool : List String) (remaining : List Nat) :
    StateM σ (Option Pick × List Nat) := do
  let remaining := if remaining = [] then List.range pool.length else remaining
  if remaining = [] then return (none, [])
  let position ← drawPosition remaining.length
  let row := remaining.getD position 0
  let how := toString remaining.length ++ " rows --> [row " ++ toString (row + 1) ++ "]"
  return (some ⟨how, pool.getD row ""⟩, remaining.eraseIdx position)

/-- One pick, and the row numbers that remain for the next. -/
def pick (remaining : List Nat) : TableM σ (Option Pick × List Nat) := do
  let t ← get
  match t.lookup with
  | some lookup => return (← pickByLookup lookup, remaining)
  | none => (pickFromPool t.pool remaining : StateM σ _)

/-- Makes a number of picks and rolls the formulas in each. -/
def picks (roll : RollFormula σ) :
    (count : Nat) → (remaining : List Nat) → TableM σ (List Rolled)
  | 0, _ => return []
  | count + 1, remaining => do
    let (picked, remaining) ← pick remaining
    match picked with
    | none => picks roll count remaining
    | some p =>
      let outcome ← ((Marker.expand roll p.row).run : StateM σ _)
      let (text, nested) ← liftM outcome
      let how :=
        if nested = [] then p.fragment else p.fragment ++ " > (" ++ ";".intercalate nested ++ ")"
      return ⟨text, how⟩ :: (← picks roll count remaining)

omit [RandomSource σ] in
/-- The traces of all picks behind the reference. -/
def combine (text : String) : List String → String
  | [] => text
  | [one] => text ++ " " ++ one
  | many => text ++ " ==> (" ++ " ||".intercalate many ++ ")"

/-- Rolls as many picks as the reference asks for. Memory for their results is taken to be there, however many they are:
a count of picks that no memory could hold is not refused here. -/
def rollPicks (roll : RollFormula σ) : TableM σ RollValue := do
  modify fun t => { t with advisories := [] }
  let t ← get
  let rolled ← picks roll t.reference.count []
  let result := "||".intercalate (rolled.map (·.value))
  let fragment := combine t.text (rolled.map (·.fragment))
  modify fun t => { t with result := some result, fragment, trace := Text.outline fragment }
  return .text result

def roll (t : Table) (roll : RollFormula σ) : StateM σ (Except RollError RollValue × Table) :=
  ((rollPicks roll).run).run t

omit [RandomSource σ] in
def rendered (t : Table) : String := t.result.getD ""

def toRecord (t : Table) : Record :=
  { kind := .table, value := .text t.rendered, trace := t.trace, fragment := some t.fragment }

/-- Takes over a stored roll. -/
def restore (t : Table) (r : Record) : Except RollError Table :=
  if r.kind ≠ .table then .error (.kindMismatch .table r.kind)
  else .ok { t with result := some r.value.shown, trace := r.trace, fragment := r.fragmentOrTrace }

end Table
end Tabletop
