import Tabletop.Proofs.Dice.Bounds
import Tabletop.Proofs.Dice.Combining

/-! What modifiers make of rolled dice, whatever the source answers. No die is ever lost. Only explosions in a row bring new
ones, only keeping dice from an end takes dice out of the total, and only explosions that add up make other values than
rolled ones. -/
namespace Tabletop
variable {σ : Type} [RandomSource σ]

/-- The dice that modifiers of these kinds can make of rolled ones. -/
inductive Die.Arises (kinds : ModifierKind → Prop) : Die → Prop
  | rolled (x : Int64) : Arises kinds (.rolled (.whole x))
  | dropped {d : Die} (hd : Arises kinds d) (hkind : kinds .keepHigh ∨ kinds .keepLow) : Arises kinds (DiceSequence.drop d)
  | rerolled {d : Die} (hd : Arises kinds d) (x : Int64) : Arises kinds ((d.tag .rerolled).setValue (.whole x))
  | exploded {d : Die} (hd : Arises kinds d) : Arises kinds (d.tag .exploded)
  | added {d : Die} (hd : Arises kinds d) (hkind : kinds .explodeCombine) (x : Int64) : Arises kinds (d.addRoll (.whole x))

namespace Die.Arises
variable {kinds : ModifierKind → Prop} {d : Die}

theorem usable (hd : d.Arises kinds) (hhigh : ¬kinds .keepHigh) (hlow : ¬kinds .keepLow) : d.usable = true := by
  induction hd with
  | rolled x => rfl
  | dropped _ hkind _ => exact (hkind.elim hhigh hlow).elim
  | @rerolled d _ x ih => exact (d.usable_tag .rerolled).trans ih
  | @exploded d _ ih => exact (d.usable_tag .exploded).trans ih
  | @added d _ _ x ih => exact (usable_tag _ .exploded).trans ih

theorem exists_whole (hd : d.Arises kinds) (hadd : ¬kinds .explodeCombine) : ∃ x : Int64, d.value = .whole x := by
  induction hd with
  | rolled x => exact ⟨x, rfl⟩
  | dropped _ _ ih => rwa [DiceSequence.drop, value_tag]
  | rerolled _ x _ => exact ⟨x, rfl⟩
  | exploded _ ih => rwa [value_tag]
  | added _ hkind _ _ => exact absurd hkind hadd

end Die.Arises

private theorem Cup.rollOne_ends_whole (faces : Faces) :
    (rollOne faces : RollM σ Number).Ends (fun v => ∃ x : Int64, v = .whole x) AtLimit :=
  (RollM.Rolls.ends (.between _ _)).bind fun x _ => .pure ⟨x, rfl⟩

private theorem Cup.roll_ends_whole (n : Nat) (faces : Faces) :
    (roll n faces : RollM σ (List Number)).Ends (fun vs => vs.length = n ∧ ∀ v ∈ vs, ∃ x : Int64, v = .whole x)
      AtLimit := by
  intro cup
  rw [run_roll, charge]
  split
  · exact rfl
  · obtain ⟨xs, hxs⟩ := exists_whole_answers (List.replicate n faces) cup.source
    refine ⟨(length_answers _ _).trans List.length_replicate, fun v hv => ?_⟩
    rw [← hxs] at hv
    obtain ⟨x, -, hx⟩ := List.mem_map.1 hv
    exact ⟨x, hx.symm⟩

namespace DiceSequence
variable {kinds : ModifierKind → Prop} {n : Nat} {s : DiceSequence} {faces : Faces} {conditions : List Condition}

/-- A sequence that started with `n` rolled dice, reworked by modifiers of these kinds. -/
structure Reworked (kinds : ModifierKind → Prop) (n : Nat) (s : DiceSequence) : Prop where
  built : s.Built
  arises : ∀ id, ∀ d ∈ s.die? id, d.Arises kinds
  least : n ≤ s.size
  most : ¬kinds .explode → s.size = n

namespace Reworked

theorem arises_of_mem (hs : s.Reworked kinds n) {d : Die} (hd : d ∈ s.toList) : d.Arises kinds := by
  obtain ⟨id, -, hid⟩ := List.mem_filterMap.1 hd
  exact hs.arises id d hid

private theorem ofValues {values : List Number} (h : ∀ v ∈ values, ∃ x : Int64, v = .whole x) :
    (ofValues values).Reworked kinds values.length := by
  have hbuilt : (DiceSequence.ofValues values).Built := .ofValues values
  have hsize : (DiceSequence.ofValues values).size = values.length := by
    rw [← hbuilt.length_toList, toList_ofValues, List.length_map]
  refine ⟨hbuilt, fun id d hd => ?_, Nat.le_of_eq hsize.symm, fun _ => hsize⟩
  have hmem := hbuilt.mem_toList hd
  rw [toList_ofValues] at hmem
  obtain ⟨v, hv, rfl⟩ := List.mem_map.1 hmem
  obtain ⟨x, rfl⟩ := h v hv
  exact .rolled x

private theorem modify (hs : s.Reworked kinds n) (id : Nat) {f : Die → Die}
    (hf : ∀ d, d.Arises kinds → (f d).Arises kinds) : (s.modify id f).Reworked kinds n := by
  refine ⟨hs.built.modify id f, fun j d hd => ?_, ?_, fun hkind => ?_⟩
  · rw [die?_modify] at hd
    split at hd
    · obtain ⟨e, he, rfl⟩ := Option.map_eq_some_iff.1 hd
      exact hf e (hs.arises j e he)
    · exact hs.arises j d hd
  · rw [size_modify]
    exact hs.least
  · rw [size_modify]
    exact hs.most hkind

private theorem insertAfter (hs : s.Reworked kinds n) (hkind : kinds .explode) (after : Nat) (x : Int64) :
    (s.insertAfter after (.rolled (.whole x))).Reworked kinds n := by
  rcases Decidable.em (after < s.size) with h | h
  · refine ⟨hs.built.insertAfter h _, fun j d hd => ?_, ?_, fun hnone => absurd hkind hnone⟩
    · rw [die?_insertAfter h] at hd
      split at hd
      · cases hd
        exact .rolled x
      · exact hs.arises j d hd
    · rw [size_insertAfter h]
      exact Nat.le_succ_of_le hs.least
  · rwa [DiceSequence.insertAfter, if_neg h]

private theorem keep (hs : s.Reworked kinds n) (hkind : kinds .keepHigh ∨ kinds .keepLow)
    (less : Number → Number → Bool) (kept : Nat) : (s.keep less kept).Reworked kinds n := by
  rw [DiceSequence.keep]
  generalize (ranked _ _).drop kept = dropped
  induction dropped generalizing s with
  | nil => exact hs
  | cons x dropped ih => exact ih (hs.modify x.1 fun d hd => .dropped hd hkind)

private theorem rerollAll (hs : s.Reworked kinds n) (ids : List Nat) :
    (rerollAll faces s ids : RollM σ _).Ends (Reworked kinds n) AtLimit := by
  refine RollM.Ends.foldlM (fun t id _ ht => ?_) hs
  refine (Cup.rollOne_ends_whole faces).bind fun v hv => .pure (ht.modify id fun d hd => ?_)
  obtain ⟨x, rfl⟩ := hv
  exact .rerolled hd x

private theorem rerollPasses (hs : s.Reworked kinds n) (passes : Nat) (active : List Nat) :
    (rerollPasses faces conditions passes active s : RollM σ _).Ends (Reworked kinds n) AtLimit := by
  induction passes generalizing active s with
  | zero => exact .pure hs
  | succ passes ih =>
    rw [DiceSequence.rerollPasses]
    split
    · exact .pure hs
    · exact (rerollAll hs _).bind fun t ht => ih ht _

private theorem explodeDie (hs : s.Reworked kinds n) (hkind : kinds .explode) (times id : Nat) :
    (explodeDie faces conditions times id s : RollM σ _).Ends (Reworked kinds n) AtLimit := by
  induction times generalizing id s with
  | zero => exact .pure hs
  | succ times ih =>
    rw [DiceSequence.explodeDie]
    split
    · refine (Cup.rollOne_ends_whole faces).bind fun v hv => ih ?_ _
      obtain ⟨x, rfl⟩ := hv
      exact (hs.modify id fun d hd => .exploded hd).insertAfter hkind id x
    · exact .pure hs

private theorem combineDie (hs : s.Reworked kinds n) (hkind : kinds .explodeCombine) (id times : Nat)
    (latest : Number) :
    (combineDie faces conditions id times latest s : RollM σ _).Ends (Reworked kinds n) AtLimit := by
  induction times generalizing latest s with
  | zero => exact .pure hs
  | succ times ih =>
    rw [DiceSequence.combineDie]
    split
    · refine (Cup.rollOne_ends_whole faces).bind fun v hv => ih ?_ _
      obtain ⟨x, rfl⟩ := hv
      exact hs.modify id fun d hd => .added hd hkind x
    · exact .pure hs

end Reworked
end DiceSequence

namespace Modifier
variable {kinds : ModifierKind → Prop} {n : Nat} {s : DiceSequence} {faces : Faces} {m : Modifier}

private theorem apply_reworked (hs : s.Reworked kinds n) (hkind : kinds m.kind) :
    (m.apply faces s : RollM σ _).Ends (DiceSequence.Reworked kinds n) AtLimit := by
  rw [apply]
  cases hm : m.kind with
  | keepHigh => exact .pure (hs.keep (.inl (hm ▸ hkind)) _ _)
  | keepLow => exact .pure (hs.keep (.inr (hm ▸ hkind)) _ _)
  | reroll => exact hs.rerollPasses _ _
  | explode => exact .foldlM (fun t id _ ht => ht.explodeDie (hm ▸ hkind) _ id) hs
  | explodeCombine =>
    refine .foldlM (fun t id _ ht => ?_) hs
    split
    · exact ht.combineDie (hm ▸ hkind) id _ _
    · exact .pure ht

private theorem foldlM_apply_reworked (hs : s.Reworked kinds n) {ms : List Modifier} (hkinds : ∀ m ∈ ms, kinds m.kind) :
    (ms.foldlM (fun s m => m.apply faces s) s : RollM σ _).Ends (DiceSequence.Reworked kinds n) AtLimit :=
  .foldlM (fun _ m hm ht => apply_reworked ht (hkinds m hm)) hs

end Modifier

namespace DicePool
variable {p : DicePool}

/-- A modifier of this kind reworks the pool. -/
def Has (p : DicePool) (kind : ModifierKind) : Prop := ∃ m ∈ p.modifiers, m.kind = kind

private theorem rework_reworked (hplain : p.conditions = []) (hwhole : ∀ v ∈ p.rolled, ∃ x : Int64, v = .whole x) :
    (p.rework : RollM σ DiceSequence).Ends (DiceSequence.Reworked p.Has p.rolled.length) AtLimit := by
  have hempty : p.conditions.isEmpty = true := by rw [hplain, List.isEmpty_nil]
  have hkinds : ∀ m ∈ p.modifiers, p.Has m.kind := fun m hm => ⟨m, hm, rfl⟩
  refine (Modifier.foldlM_apply_reworked (.ofValues hwhole) hkinds).bind fun t ht => ?_
  rw [if_pos hempty]
  exact .pure ht

/-- What was rolled before makes no difference. -/
theorem roll_reworked (hplain : p.conditions = []) :
    (p.roll : RollM σ DicePool).Ends (fun q => q.bare = p.bare ∧ q.results.Reworked q.Has p.count) AtLimit := by
  refine (Cup.roll_ends_whole p.count p.faces).bind fun rolled ⟨hlength, hwhole⟩ => ?_
  exact (rework_reworked (p := { p with rolled }) hplain hwhole).bind fun t ht => .pure ⟨rfl, hlength ▸ ht⟩

end DicePool
end Tabletop
