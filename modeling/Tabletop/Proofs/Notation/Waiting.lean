import Tabletop.Notation.Formula

/-! The stack of waiting operators. A run of operators at its top goes to the output in one piece, and what is
below decides where a new operator, a closing parenthesis or the end of the text stops. -/
namespace Tabletop.Formula

/-- The tokens of waiting operators, in the order in which they leave the stack. -/
def leaving (own : List (Pending × Text.Span)) : List PlacedToken :=
  own.filterMap fun w => w.1.operator?.map fun o => ⟨.operator o, w.2⟩

theorem leaving_append (a b : List (Pending × Text.Span)) :
    leaving (a ++ b) = leaving a ++ leaving b := List.filterMap_append

namespace Pending

theorem yieldsTo_iff {op : Operator} {p : Pending} :
    p.yieldsTo op = true ↔ op ≠ .pow ∧ Formula.strength op ≤ p.strength := by
  rcases p with o | _ | _
  · cases o <;> cases op <;> decide
  · cases op <;> decide
  · cases op <;> decide

private theorem operator?_of_strength_pos {p : Pending} (h : 0 < p.strength) : ∃ o, p.operator? = some o := by
  cases p with
  | binary op => exact ⟨op, rfl⟩
  | negate => exact ⟨.sub, rfl⟩
  | openParen => exact absurd h (Nat.lt_irrefl 0)

theorem strength_le (p : Pending) : p.strength ≤ 6 := by
  rcases p with o | _ | _
  · cases o <;> decide
  · decide
  · decide

end Pending

private theorem strength_pos (op : Operator) : 0 < strength op := by cases op <;> decide

namespace Progress
variable {own base : List (Pending × Text.Span)} {output : List PlacedToken} {opened : Text.Span}

theorem release_append {op : Operator} (hown : ∀ w ∈ own, w.1.yieldsTo op = true)
    (hbase : ∀ w ∈ base.head?, w.1.yieldsTo op = false) :
    release op (own ++ base) output = (base, (leaving own).reverse ++ output) := by
  induction own generalizing output with
  | nil =>
    cases base with
    | nil => rfl
    | cons w base =>
      have h := hbase w rfl
      simp [release, leaving, h]
  | cons w own ih =>
    have h := hown w List.mem_cons_self
    have hs := (Pending.yieldsTo_iff.1 h).2
    obtain ⟨o, ho⟩ := Pending.operator?_of_strength_pos (Nat.lt_of_lt_of_le (strength_pos op) hs)
    simp only [List.cons_append, release, h, ho]
    rw [ih fun v hv => hown v (List.mem_cons_of_mem w hv)]
    simp [leaving, ho]

/-- Only a parenthesis stops what a closing one takes from the stack. -/
theorem close?_own (hown : ∀ w ∈ own, 0 < w.1.strength) :
    close? (own ++ base) output = close? base ((leaving own).reverse ++ output) := by
  induction own generalizing output with
  | nil => rfl
  | cons w own ih =>
    have hrest : ∀ v ∈ own, 0 < v.1.strength := fun v hv => hown v (List.mem_cons_of_mem w hv)
    obtain ⟨o, ho⟩ := Pending.operator?_of_strength_pos (hown w List.mem_cons_self)
    rw [List.cons_append, close?, ho]
    simp [ih hrest, leaving, ho]

private theorem finish_own (hown : ∀ w ∈ own, 0 < w.1.strength) :
    finish (own ++ base) output = finish base ((leaving own).reverse ++ output) := by
  induction own generalizing output with
  | nil => rfl
  | cons w own ih =>
    have hrest : ∀ v ∈ own, 0 < v.1.strength := fun v hv => hown v (List.mem_cons_of_mem w hv)
    obtain ⟨o, ho⟩ := Pending.operator?_of_strength_pos (hown w List.mem_cons_self)
    rw [List.cons_append, finish, ho]
    simp [ih hrest, leaving, ho]

theorem close?_append (hown : ∀ w ∈ own, 0 < w.1.strength) :
    close? (own ++ (.openParen, opened) :: base) output = some (base, (leaving own).reverse ++ output) := by
  rw [close?_own hown]
  rfl

theorem close?_eq_none (hown : ∀ w ∈ own, 0 < w.1.strength) : close? own output = none := by
  have h : close? (own ++ []) output = _ := close?_own hown
  rw [← List.append_nil own, h]
  rfl

theorem finish_eq_ok (hown : ∀ w ∈ own, 0 < w.1.strength) :
    finish own output = .ok ((leaving own).reverse ++ output) := by
  have h : finish (own ++ []) output = _ := finish_own hown
  rw [List.append_nil] at h
  rw [h]
  rfl

theorem finish_append_openParen (hown : ∀ w ∈ own, 0 < w.1.strength) :
    finish (own ++ (.openParen, opened) :: base) output = .error opened := by
  rw [finish_own hown]
  rfl

end Progress
end Tabletop.Formula
