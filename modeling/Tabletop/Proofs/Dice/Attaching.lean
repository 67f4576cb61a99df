import Mathlib.Algebra.Group.Nat.Defs
import Mathlib.Data.List.Induction
import Mathlib.Data.List.Nodup
import Tabletop.Dice.Group

/-! Modifiers attached to a pool. A later one takes the place of an earlier one of its kind, so of what is written the last
of each kind is left. Dropping dice from one end is a way of keeping dice from the other. -/
namespace Tabletop

namespace DicePool

/-- The modifiers of a pool to which these were attached. -/
def attached (ms : List Modifier) : List Modifier := ms.foldl (fun old m => replaceModifier m old) []

theorem foldl_attach (p : DicePool) (hbare : p.modifiers = []) (ms : List Modifier) :
    ms.foldl attach p = { p with modifiers := attached ms } := by
  have hfold (old : List Modifier) : ms.foldl attach { p with modifiers := old } =
      { p with modifiers := ms.foldl (fun old m => replaceModifier m old) old } := by
    induction ms generalizing old with
    | nil => rfl
    | cons m ms ih => exact ih (replaceModifier m old)
  have hp : { p with modifiers := [] } = p := by rw [← hbare]
  rw [attached, ← hfold, hp]

/-- What a modifier is resolved to depends on the number of dice alone, which no modifier changes. -/
theorem foldl_attach_resolved {α : Type} (resolved : Nat → α → Modifier) (p : DicePool) (as : List α) :
    as.foldl (fun q a => q.attach (resolved q.count a)) p = (as.map (resolved p.count)).foldl attach p := by
  induction as generalizing p with
  | nil => rfl
  | cons a as ih => exact ih (p.attach (resolved p.count a))

private theorem kinds_replaceModifier (m : Modifier) (old : List Modifier) :
    (replaceModifier m old).map (·.kind) =
      if m.kind ∈ old.map (·.kind) then old.map (·.kind) else old.map (·.kind) ++ [m.kind] := by
  induction old with
  | nil => rfl
  | cons o old ih =>
    simp only [replaceModifier, List.map_cons, List.mem_cons]
    rcases Decidable.em (o.kind = m.kind) with hkind | hkind
    · rw [if_pos hkind, if_pos (.inl hkind.symm), List.map_cons, hkind]
    · simp only [if_neg hkind, List.map_cons, ih, Ne.symm hkind, false_or]
      split <;> rfl

private theorem mem_replaceModifier {m m' : Modifier} {old : List Modifier} (hnodup : (old.map (·.kind)).Nodup) :
    m' ∈ replaceModifier m old ↔ m' = m ∨ m' ∈ old ∧ m'.kind ≠ m.kind := by
  induction old with
  | nil => simp [replaceModifier]
  | cons o old ih =>
    obtain ⟨hfirst, hnodup⟩ := List.nodup_cons.1 hnodup
    rw [replaceModifier]
    rcases Decidable.em (o.kind = m.kind) with hkind | hkind
    · have hother : ∀ n ∈ old, n.kind ≠ m.kind := fun n hn he =>
        hfirst (List.mem_map.2 ⟨n, hn, he.trans hkind.symm⟩)
      rw [if_pos hkind]
      grind
    · rw [if_neg hkind]
      grind

private theorem nodup_replaceModifier (m : Modifier) {old : List Modifier} (h : (old.map (·.kind)).Nodup) :
    ((replaceModifier m old).map (·.kind)).Nodup := by
  rw [kinds_replaceModifier]
  split
  · exact h
  · refine List.nodup_append.2 ⟨h, List.nodup_singleton _, ?_⟩
    grind

private theorem attached_concat (ms : List Modifier) (m : Modifier) :
    attached (ms ++ [m]) = replaceModifier m (attached ms) :=
  List.foldl_append

theorem nodup_attached (ms : List Modifier) : ((attached ms).map (·.kind)).Nodup := by
  induction ms using List.reverseRecOn with
  | nil => exact List.nodup_nil
  | append_singleton ms n ih =>
    rw [attached_concat]
    exact nodup_replaceModifier n ih

/-- Of the modifiers of each kind the last one stays, and no other. -/
theorem mem_attached {m : Modifier} (ms : List Modifier) :
    m ∈ attached ms ↔ (ms.filter (·.kind = m.kind)).getLast? = some m := by
  induction ms using List.reverseRecOn with
  | nil => simp [attached]
  | append_singleton ms n ih =>
    rw [attached_concat, mem_replaceModifier (nodup_attached ms), ih, List.filter_append]
    rcases Decidable.em (n.kind = m.kind) with hkind | hkind
    · simp [hkind, eq_comm]
    · grind

theorem mem_of_mem_attached {m : Modifier} {ms : List Modifier} (h : m ∈ attached ms) : m ∈ ms :=
  (List.mem_filter.1 (List.mem_of_getLast? ((mem_attached ms).1 h))).1

end DicePool

namespace WrittenModifier

/-- The end a modifier keeps dice from, and how many. Dropping from one end keeps the rest at the other. -/
def keeps? (dice : Nat) : WrittenModifier → Option (ModifierKind × Nat)
  | keepHigh n => some (.keepHigh, n)
  | dropLow n => some (.keepHigh, dice - n)
  | keepLow n => some (.keepLow, n)
  | dropHigh n => some (.keepLow, dice - n)
  | explode _ | explodeCombine _ | reroll _ => none

/-- How many dice are kept from an end. The last modifier for that end decides, and without any all dice are kept. -/
def keptFrom (kind : ModifierKind) (dice : Nat) (written : List WrittenModifier) : Nat :=
  (((written.filterMap (·.keeps? dice)).filter (·.1 = kind)).getLast?.map Prod.snd).getD dice

variable {dice : Nat} {written : List WrittenModifier}

private theorem resolve_of_keeps? {w : WrittenModifier} {k : ModifierKind × Nat} (hdice : dice < 2 ^ 32)
    (h : w.keeps? dice = some k) : w.resolve dice [] = ⟨k.1, k.2, []⟩ := by
  have hmin : min dice maxCount = dice := Nat.min_eq_left (Nat.le_pred_of_lt hdice)
  cases w with
  | keepHigh | keepLow => cases h; rfl
  | dropHigh | dropLow => cases h; simp only [resolve, hmin]
  | explode | explodeCombine | reroll => cases h

theorem map_resolve (hdice : dice < 2 ^ 32) (h : ∀ w ∈ written, (w.keeps? dice).isSome = true) :
    written.map (·.resolve dice []) = (written.filterMap (·.keeps? dice)).map fun k => ⟨k.1, k.2, []⟩ := by
  induction written with
  | nil => rfl
  | cons w written ih =>
    obtain ⟨hw, hwritten⟩ := List.forall_mem_cons.1 h
    obtain ⟨k, hk⟩ := Option.isSome_iff_exists.1 hw
    rw [List.map_cons, List.filterMap_cons_some hk, List.map_cons, resolve_of_keeps? hdice hk, ih hwritten]

private theorem kind_of_keeps? {w : WrittenModifier} {k : ModifierKind × Nat} (h : w.keeps? dice = some k) :
    k.1 = .keepHigh ∨ k.1 = .keepLow := by
  cases w with
  | keepHigh | dropLow => cases h; exact .inl rfl
  | keepLow | dropHigh => cases h; exact .inr rfl
  | explode | explodeCombine | reroll => cases h

/-- The modifiers that are attached are of the two kinds that keep dice. -/
theorem kind_of_mem_attached (hdice : dice < 2 ^ 32) (h : ∀ w ∈ written, (w.keeps? dice).isSome = true) {m : Modifier}
    (hm : m ∈ DicePool.attached (written.map (·.resolve dice []))) : m.kind = .keepHigh ∨ m.kind = .keepLow := by
  have hm := DicePool.mem_of_mem_attached hm
  rw [map_resolve hdice h] at hm
  obtain ⟨k, hk, rfl⟩ := List.mem_map.1 hm
  obtain ⟨w, -, hw⟩ := List.mem_filterMap.1 hk
  exact kind_of_keeps? hw

end WrittenModifier
end Tabletop
