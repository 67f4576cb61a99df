import Tabletop.Proofs.Dice.Ends
import Tabletop.Proofs.Expression.Calculation

/-! The pass over the tokens of a tree. Whether the groups are made in it or were made before, it is the
rolling of the tree's groups in the tree's own order, and nothing else is drawn. -/
namespace Tabletop
open Expression (Pass)
variable {σ : Type} [RandomSource σ]

/-- A group as it is before its first roll, in its place. -/
def PlacedGroup.bare (g : PlacedGroup) : PlacedGroup := { g with group := g.group.bare }

/-- Rolls one of several groups. -/
def rollGroup (gs : List PlacedGroup) (i : Nat) : RollM σ (List PlacedGroup) :=
  match gs[i]? with
  | none => return gs
  | some g => return gs.set i { g with group := ← g.group.roll }

/-- Rolls groups one after the other. -/
def rollGroups (order : List Nat) (gs : List PlacedGroup) : RollM σ (List PlacedGroup) :=
  order.foldlM rollGroup gs

section RollGroups
variable {α : Type} {gs hs : List PlacedGroup} {i : Nat}

theorem rollGroups_nil (gs : List PlacedGroup) : (rollGroups [] gs : RollM σ _) = pure gs := rfl

theorem rollGroups_cons (i : Nat) (order : List Nat) (gs : List PlacedGroup) :
    (rollGroups (i :: order) gs : RollM σ _) = rollGroup gs i >>= rollGroups order := List.foldlM_cons

theorem rollGroups_append (a b : List Nat) (gs : List PlacedGroup) :
    (rollGroups (a ++ b) gs : RollM σ _) = rollGroups a gs >>= rollGroups b := List.foldlM_append

theorem rollGroup_of_getElem? {g : PlacedGroup} (h : gs[i]? = some g) :
    (rollGroup gs i : RollM σ _) = (fun d => gs.set i { g with group := d }) <$> g.group.roll := by
  rw [rollGroup, h, map_eq_pure_bind]

/-- Rolling keeps the number of groups. -/
theorem rollGroup_bind_congr {f k : List PlacedGroup → RollM σ α}
    (h : ∀ hs, hs.length = gs.length → f hs = k hs) : rollGroup gs i >>= f = rollGroup gs i >>= k := by
  cases hg : gs[i]? with
  | none => simpa [rollGroup, hg] using h gs rfl
  | some g =>
    rw [rollGroup_of_getElem? hg, bind_map_left, bind_map_left]
    exact bind_congr fun d => h _ (List.length_set ..)

theorem rollGroups_bind_congr (order : List Nat) {f k : List PlacedGroup → RollM σ α}
    (h : ∀ hs, hs.length = gs.length → f hs = k hs) : rollGroups order gs >>= f = rollGroups order gs >>= k := by
  induction order generalizing gs with
  | nil => simpa [rollGroups_nil] using h gs rfl
  | cons i order ih =>
    rw [rollGroups_cons, bind_assoc, bind_assoc]
    exact rollGroup_bind_congr fun hs hhs => ih fun ks hks => h ks (hks.trans hhs)

private theorem rollGroup_append (hi : i < gs.length) (more : List PlacedGroup) :
    (rollGroup (gs ++ more) i : RollM σ _) = (· ++ more) <$> rollGroup gs i := by
  have hg : gs[i]? = some gs[i] := List.getElem?_eq_getElem hi
  rw [rollGroup_of_getElem? hg, rollGroup_of_getElem? ((List.getElem?_append_left hi).trans hg), Functor.map_map]
  simp only [List.set_append_left _ _ hi]

/-- Groups that are not rolled do not matter. -/
theorem rollGroups_append_right (order : List Nat) (h : ∀ i ∈ order, i < gs.length) (more : List PlacedGroup) :
    (rollGroups order (gs ++ more) : RollM σ _) = (· ++ more) <$> rollGroups order gs := by
  induction order generalizing gs with
  | nil => simp [rollGroups_nil]
  | cons i order ih =>
    rw [rollGroups_cons, rollGroups_cons, rollGroup_append (h i (by simp)), bind_map_left, map_bind]
    exact rollGroup_bind_congr fun hs hhs => ih fun j hj => hhs ▸ h j (by simp [hj])

private theorem rollGroup_ends (gs : List PlacedGroup) (i : Nat) :
    (rollGroup gs i : RollM σ _).Ends (fun hs => hs.map PlacedGroup.bare = gs.map PlacedGroup.bare) AtLimit := by
  cases hg : gs[i]? with
  | none =>
    rw [rollGroup, hg]
    exact .pure rfl
  | some g =>
    rw [rollGroup_of_getElem? hg]
    refine g.group.roll_ends.map fun d hd => ?_
    have hbare : PlacedGroup.bare { g with group := d } = g.bare := by rw [PlacedGroup.bare, hd, PlacedGroup.bare]
    obtain ⟨hi, rfl⟩ := List.getElem?_eq_some_iff.1 hg
    rw [List.map_set, hbare, ← List.map_set, List.set_getElem_self]

/-- Rolling fails only at the limit, and otherwise changes nothing but what was rolled. -/
theorem rollGroups_ends (order : List Nat) (gs : List PlacedGroup) :
    (rollGroups order gs : RollM σ _).Ends (fun hs => hs.map PlacedGroup.bare = gs.map PlacedGroup.bare) AtLimit :=
  RollM.Ends.foldlM (fun hs i _ hhs => (rollGroup_ends hs i).mono (fun _ hks => hks.trans hhs) fun _ => id) rfl

end RollGroups

namespace Calculation

private theorem mem_operatorRolls {t : Calculation} {k i : Nat} (h : i ∈ t.operatorRolls k) : i < k + t.size := by
  have hi : i ∈ List.range' k t.size := (t.operatorRolls_perm k).subset (List.mem_append_left _ h)
  exact (List.mem_range'_1.1 hi).2

/-- The program that is left of a tree once its groups, numbered from `k` on, have totals. -/
def instructions : Calculation → (k : Nat) → List Instruction
  | literal value _ _, _ => [.literal value]
  | group .., k => [.group k]
  | binary op _ l r, k => l.instructions k ++ r.instructions (k + l.size) ++ [.operator op]

end Calculation

namespace Pass

theorem rollAt_eq (operand : Option Nat) (p : Pass) :
    (p.rollAt operand : RollM σ Pass) =
      (fun gs => { p with groups := gs }) <$> rollGroups operand.toList p.groups := by
  cases operand with
  | none => rfl
  | some i =>
    rw [Pass.rollAt, Option.toList_some, rollGroups_cons]
    cases hg : p.groups[i]? with
    | none => simp [rollGroup, hg, rollGroups_nil]
    | some g =>
      rw [rollGroup_of_getElem? hg]
      simp [rollGroups_nil]

/-- An operator rolls its right operand first. -/
theorem operator_eq (op : Operator) (p : Pass) {b a : Option Nat} {rest : List (Option Nat)}
    (h : p.waiting = b :: a :: rest) :
    (p.operator op : RollM σ Pass) =
      (fun gs => ⟨gs, .operator op :: p.program, none :: rest, p.next⟩) <$>
        rollGroups (b.toList ++ a.toList) p.groups := by
  rw [rollGroups_append]
  simp [Pass.operator, h, rollAt_eq]

private theorem foldlM_step_operator (op : Operator) (sign : Text.Span) {made : Nat} {p : Pass} {b a : Option Nat}
    {rest : List (Option Nat)} (h : p.waiting = b :: a :: rest) :
    ([⟨.operator op, sign⟩].foldlM (Pass.step made) p : RollM σ Pass) =
      (fun gs => ⟨gs, .operator op :: p.program, none :: rest, p.next⟩) <$>
        rollGroups (b.toList ++ a.toList) p.groups := by
  rw [← operator_eq op p h, List.foldlM_cons]
  exact bind_pure _

end Pass

/-- How a pass meets the groups of a tree: not yet made, or all made before it. -/
def Meets (made : Nat) (p : Pass) (t : Calculation) (gs : List PlacedGroup) : Prop :=
  (made = 0 ∧ p.groups.length = p.next ∧ gs = p.groups ++ t.groups) ∨
    (made = p.groups.length ∧ p.next + t.size ≤ made ∧ gs = p.groups)

private theorem Meets.binary {made : Nat} {p : Pass} {op : Operator} {sign : Text.Span} {l r : Calculation}
    {gs : List PlacedGroup} (h : Meets made p (.binary op sign l r) gs) :
    ∃ first more, gs = first ++ more ∧ Meets made p l first ∧ p.next + l.size ≤ first.length ∧
      ∀ hs program waiting, hs.length = first.length →
        Meets made ⟨hs, program, waiting, p.next + l.size⟩ r (hs ++ more) := by
  rcases h with ⟨hmade, hlen, rfl⟩ | ⟨hmade, hle, rfl⟩
  · have hfirst : (p.groups ++ l.groups).length = p.next + l.size := by
      rw [List.length_append, hlen, l.length_groups]
    refine ⟨p.groups ++ l.groups, r.groups, ?_, .inl ⟨hmade, hlen, rfl⟩, Nat.le_of_eq hfirst.symm, ?_⟩
    · simp [Calculation.groups]
    · exact fun hs _ _ hhs => .inl ⟨hmade, hhs.trans hfirst, rfl⟩
  · rw [Calculation.size] at hle
    refine ⟨p.groups, [], (List.append_nil _).symm, .inr ⟨hmade, by omega, rfl⟩, by omega, ?_⟩
    exact fun hs _ _ hhs => .inr ⟨hmade.trans hhs.symm, by simp only; omega, List.append_nil _⟩

private theorem step_operand (made : Nat) (p : Pass) (o : Operand) :
    (p.step made o.token : RollM σ Pass) = pure (p.operand o.group o.token.span) := by
  cases o with
  | number value span visible => simp [Pass.step, Operand.token, visible, Operand.group]
  | _ => rfl

/-- Groups made before the pass have their modifiers already. -/
theorem step_modifier_made {made : Nat} {p : Pass} (hnext : 0 < p.next) (hmade : p.next ≤ made) (m : PlacedModifier) :
    (p.step made m.token : RollM σ Pass) = pure p := by
  obtain ⟨gs, program, waiting, _ | i⟩ := p
  · exact absurd hnext (Nat.lt_irrefl 0)
  · have hattach : Pass.attach made m.modifier m.conditions m.span.stop ⟨gs, program, waiting, i + 1⟩ =
        .ok ⟨gs, program, waiting, i + 1⟩ := by
      cases hg : gs[i]? with
      | none => simp only [Pass.attach, hg]
      | some g =>
        simp only [Pass.attach, hg]
        exact if_pos hmade
    change liftM (Pass.attach made m.modifier m.conditions m.span.stop _) = _
    rw [hattach]
    rfl

private theorem step_modifier_fresh (gs : List PlacedGroup) (g : PlacedGroup) (program : List Instruction)
    (waiting : List (Option Nat)) (m : PlacedModifier) :
    (Pass.step 0 ⟨gs ++ [g], program, waiting, gs.length + 1⟩ m.token : RollM σ Pass) =
      pure ⟨gs ++ [g.attach m], program, waiting, gs.length + 1⟩ := by
  have hattach : Pass.attach 0 m.modifier m.conditions m.span.stop
      ⟨gs ++ [g], program, waiting, gs.length + 1⟩ =
        .ok ⟨gs ++ [g.attach m], program, waiting, gs.length + 1⟩ := by
    simp [Pass.attach, PlacedGroup.attach]
  change liftM (Pass.attach 0 m.modifier m.conditions m.span.stop _) = _
  rw [hattach]
  rfl

private theorem foldlM_step_modifiers_made {made : Nat} {p : Pass} (hnext : 0 < p.next) (hmade : p.next ≤ made)
    (ms : List PlacedModifier) :
    ((ms.map PlacedModifier.token).foldlM (Pass.step made) p : RollM σ Pass) = pure p := by
  induction ms with
  | nil => rfl
  | cons m ms ih => rw [List.map_cons, List.foldlM_cons, step_modifier_made hnext hmade, pure_bind, ih]

private theorem foldlM_step_modifiers_fresh (gs : List PlacedGroup) (g : PlacedGroup) (program : List Instruction)
    (waiting : List (Option Nat)) (ms : List PlacedModifier) :
    ((ms.map PlacedModifier.token).foldlM (Pass.step 0) ⟨gs ++ [g], program, waiting, gs.length + 1⟩ :
      RollM σ Pass) =
      pure ⟨gs ++ [ms.foldl PlacedGroup.attach g], program, waiting, gs.length + 1⟩ := by
  induction ms generalizing g with
  | nil => rfl
  | cons m ms ih => rw [List.map_cons, List.foldlM_cons, step_modifier_fresh, pure_bind, ih, List.foldl_cons]

/-- An operand with its modifiers becomes a group that waits to be rolled. -/
theorem foldlM_step_operand (o : Operand) (ms : List PlacedModifier) {made : Nat} {p : Pass}
    {gs : List PlacedGroup} (h : Meets made p (.group o ms) gs) :
    ((o.token :: ms.map PlacedModifier.token).foldlM (Pass.step made) p : RollM σ Pass) =
      pure ⟨gs, .group p.next :: p.program, some p.next :: p.waiting, p.next + 1⟩ := by
  rw [List.foldlM_cons, step_operand, pure_bind]
  rcases h with ⟨rfl, hlen, rfl⟩ | ⟨hmade, hle, rfl⟩
  · rw [Pass.operand, if_pos (Nat.le_of_eq hlen), ← hlen]
    exact foldlM_step_modifiers_fresh ..
  · have hnot : ¬ p.groups.length ≤ p.next := by
      rw [← hmade]
      exact Nat.not_le_of_lt hle
    rw [Pass.operand, if_neg hnot]
    exact foldlM_step_modifiers_made (Nat.succ_pos _) hle ms

/-- The pass over a tree rolls the groups that its operators roll, and leaves the rest to what follows. -/
theorem foldlM_step_tokens (t : Calculation) {made : Nat} {p : Pass} {gs : List PlacedGroup}
    (h : Meets made p t gs) :
    (t.tokens.foldlM (Pass.step made) p : RollM σ Pass) =
      (fun hs => ⟨hs, (t.instructions p.next).reverse ++ p.program, t.unrolled p.next :: p.waiting,
        p.next + t.size⟩) <$> rollGroups (t.operatorRolls p.next) gs := by
  induction t generalizing p gs with
  | literal value span invisible =>
    have hgs : gs = p.groups := by
      rcases h with ⟨-, -, rfl⟩ | ⟨-, -, rfl⟩
      · exact List.append_nil _
      · rfl
    rw [Calculation.tokens, List.foldlM_cons, hgs]
    simp [Pass.step, invisible, Calculation.operatorRolls, rollGroups_nil, Calculation.instructions,
      Calculation.unrolled, Calculation.size]
  | group o ms => exact foldlM_step_operand o ms h
  | binary op sign l r ihl ihr =>
    obtain ⟨first, more, rfl, hl, hle, hr⟩ := h.binary
    have hleft : ∀ i ∈ l.operatorRolls p.next, i < first.length := fun i hi =>
      Nat.lt_of_lt_of_le (Calculation.mem_operatorRolls hi) hle
    rw [Calculation.tokens, List.foldlM_append, List.foldlM_append, ihl hl, bind_assoc, bind_map_left,
      Calculation.operatorRolls, rollGroups_append, rollGroups_append, rollGroups_append]
    -- The groups of the right side are already there or not yet made: the left side rolls none of them.
    rw [rollGroups_append_right _ hleft]
    simp only [bind_assoc, bind_map_left, map_bind]
    refine rollGroups_bind_congr _ fun hs hhs => ?_
    rw [ihr (hr hs _ _ hhs), bind_map_left]
    refine bind_congr fun ks => ?_
    rw [Pass.foldlM_step_operator op sign rfl, rollGroups_append, map_bind]
    simp [Calculation.instructions, Calculation.unrolled, Calculation.size, Nat.add_assoc]

end Tabletop
