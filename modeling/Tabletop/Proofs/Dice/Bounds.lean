import Mathlib.Algebra.BigOperators.Group.List.Basic
import Mathlib.Algebra.GroupWithZero.Nat
import Tabletop.Proofs.Dice.Attaching
import Tabletop.Proofs.Dice.Order
import Tabletop.Proofs.Dice.Sources

/-! Dice that stay on their faces. Keeping, rerolling and exploding put nothing but faces into a pool, and of them only
exploding adds dice, for every die there at most as many as its count. With at most one modifier of each kind this
bounds the pool, however often it is rolled and reworked. -/
namespace Tabletop
variable {σ : Type} [RandomSource σ]

namespace DiceSequence
variable {s : DiceSequence} {faces : Faces} {conditions : List Condition}

/-- A sequence that comes out of the operations, in which every die, dropped or not, shows a face. -/
structure OnFaces (faces : Faces) (s : DiceSequence) : Prop where
  built : s.Built
  shows : ∀ id, ∀ d ∈ s.die? id, faces.Shows d.value

private theorem Built.length_ids (hs : s.Built) : s.ids.length = s.size := by
  obtain ⟨dice, h⟩ := hs.exists_inOrder
  rw [h.ids, List.length_map, h.length_eq]

theorem Built.length_toList (hs : s.Built) : s.toList.length = s.size := by
  obtain ⟨dice, h⟩ := hs.exists_inOrder
  rw [h.toList, List.length_map, h.length_eq]

private theorem Built.lt_size_of_mem_ids (hs : s.Built) {id : Nat} (hid : id ∈ s.ids) : id < s.size := by
  obtain ⟨dice, h⟩ := hs.exists_inOrder
  rw [h.ids] at hid
  exact List.mem_range.1 (h.perm.mem_iff.1 hid)

/-- Every die is shown. -/
theorem Built.mem_toList (hs : s.Built) {id : Nat} {d : Die} (hd : s.die? id = some d) : d ∈ s.toList := by
  obtain ⟨dice, h⟩ := hs.exists_inOrder
  obtain ⟨slot, hslot, rfl⟩ := Option.map_eq_some_iff.1 hd
  have hlt : id < s.size := (Array.getElem?_eq_some_iff.1 hslot).1
  have hid : id ∈ s.ids := by
    rw [h.ids]
    exact h.perm.mem_iff.2 (List.mem_range.2 hlt)
  exact List.mem_filterMap.2 ⟨id, hid, hd⟩

namespace OnFaces

private theorem shows_of_mem (hs : s.OnFaces faces) {d : Die} (hd : d ∈ s.toList) : faces.Shows d.value := by
  obtain ⟨id, -, hid⟩ := List.mem_filterMap.1 hd
  exact hs.shows id d hid

private theorem ofValues {values : List Number} (h : ∀ v ∈ values, faces.Shows v) :
    (ofValues values).OnFaces faces := by
  refine ⟨.ofValues values, fun id d hd => ?_⟩
  have hmem := (Built.ofValues values).mem_toList hd
  rw [toList_ofValues] at hmem
  obtain ⟨v, hv, rfl⟩ := List.mem_map.1 hmem
  exact h v hv

private theorem modify (hs : s.OnFaces faces) (id : Nat) {f : Die → Die}
    (hf : ∀ d, faces.Shows d.value → faces.Shows (f d).value) : (s.modify id f).OnFaces faces := by
  refine ⟨hs.built.modify id f, fun j d hd => ?_⟩
  rw [die?_modify] at hd
  split at hd
  · obtain ⟨e, he, rfl⟩ := Option.map_eq_some_iff.1 hd
    exact hf e (hs.shows j e he)
  · exact hs.shows j d hd

private theorem tag (hs : s.OnFaces faces) (id : Nat) (t : Tag) : (s.modify id (·.tag t)).OnFaces faces :=
  hs.modify id fun d hd => (d.value_tag t).symm ▸ hd

private theorem insertAfter (hs : s.OnFaces faces) {after : Nat} (h : after < s.size) {v : Number}
    (hv : faces.Shows v) : (s.insertAfter after (.rolled v)).OnFaces faces := by
  refine ⟨hs.built.insertAfter h _, fun j d hd => ?_⟩
  rw [die?_insertAfter h] at hd
  split at hd
  · cases hd
    exact hv
  · exact hs.shows j d hd

/-- Dropped dice stay where they are and show what they showed. -/
theorem keep (hs : s.OnFaces faces) (less : Number → Number → Bool) (n : Nat) :
    (s.keep less n).OnFaces faces ∧ (s.keep less n).size = s.size := by
  rw [DiceSequence.keep]
  generalize (ranked _ _).drop n = dropped
  induction dropped generalizing s with
  | nil => exact ⟨hs, rfl⟩
  | cons x dropped ih =>
    have hdrop (d : Die) (hd : faces.Shows d.value) : faces.Shows (drop d).value := by rwa [drop, Die.value_tag]
    obtain ⟨hfaces, hsize⟩ := ih (hs.modify x.1 hdrop)
    exact ⟨hfaces, hsize.trans (size_modify s x.1 drop)⟩

end OnFaces

/-- Rolling dice again changes what they show, and no more. -/
theorem rerollAll_ends (hsource : RandomSource.InRange σ) (hs : s.OnFaces faces) (ids : List Nat) :
    (rerollAll faces s ids : RollM σ _).Ends (fun t => t.OnFaces faces ∧ t.size = s.size) AtLimit := by
  refine RollM.Ends.foldlM (fun t id _ ht => ?_) ⟨hs, rfl⟩
  refine (Cup.rollOne_ends hsource faces).bind fun v hv => .pure ⟨ht.1.modify id fun d _ => hv, ?_⟩
  exact (size_modify t id _).trans ht.2

private theorem rerollPasses_ends (hsource : RandomSource.InRange σ) (hs : s.OnFaces faces) (passes : Nat)
    (active : List Nat) :
    (rerollPasses faces conditions passes active s : RollM σ _).Ends (fun t => t.OnFaces faces ∧ t.size = s.size)
      AtLimit := by
  induction passes generalizing active s with
  | zero => exact .pure ⟨hs, rfl⟩
  | succ passes ih =>
    rw [rerollPasses]
    split
    · exact .pure ⟨hs, rfl⟩
    · refine (rerollAll_ends hsource hs _).bind fun t ht => ?_
      exact (ih ht.1 _).imp fun u hu => ⟨hu.1, hu.2.trans ht.2⟩

/-- A die explodes into at most `times` new ones. -/
theorem explodeDie_ends (hsource : RandomSource.InRange σ) (hs : s.OnFaces faces) (times : Nat) {id : Nat}
    (hid : id < s.size) :
    (explodeDie faces conditions times id s : RollM σ _).Ends
      (fun t => t.OnFaces faces ∧ s.size ≤ t.size ∧ t.size ≤ s.size + times) AtLimit := by
  induction times generalizing id s with
  | zero => exact .pure ⟨hs, Nat.le_refl _, Nat.le_refl _⟩
  | succ times ih =>
    rw [explodeDie]
    split
    · refine (Cup.rollOne_ends hsource faces).bind fun v hv => ?_
      have htagged : id < (s.modify id (·.tag .exploded)).size := by rwa [size_modify]
      have hsize : ((s.modify id (·.tag .exploded)).insertAfter id (.rolled v)).size = s.size + 1 := by
        rw [size_insertAfter htagged, size_modify]
      refine (ih ((hs.tag id .exploded).insertAfter htagged hv) (by omega)).imp fun t ht => ?_
      exact ⟨ht.1, by omega, by omega⟩
    · exact .pure ⟨hs, Nat.le_refl _, Nat.le_add_right _ _⟩

private theorem foldlM_explodeDie_ends (hsource : RandomSource.InRange σ) (hs : s.OnFaces faces) (times : Nat)
    {ids : List Nat} (hids : ∀ id ∈ ids, id < s.size) :
    (ids.foldlM (fun s id => explodeDie faces conditions times id s) s : RollM σ _).Ends
      (fun t => t.OnFaces faces ∧ s.size ≤ t.size ∧ t.size ≤ s.size + ids.length * times) AtLimit := by
  induction ids generalizing s with
  | nil => exact .pure ⟨hs, Nat.le_refl _, Nat.le_add_right _ _⟩
  | cons id ids ih =>
    obtain ⟨hid, hids⟩ := List.forall_mem_cons.1 hids
    rw [List.foldlM_cons]
    refine (explodeDie_ends hsource hs times hid).bind fun t ht => ?_
    refine (ih ht.1 fun j hj => Nat.lt_of_lt_of_le (hids j hj) ht.2.1).imp fun u hu => ⟨hu.1, ?_, ?_⟩
    · omega
    · rw [List.length_cons, Nat.succ_mul]
      omega

end DiceSequence

namespace Modifier
variable {s : DiceSequence} {faces : Faces} {m : Modifier} {ms : List Modifier}

/-- How many dice a modifier can add for each die that is there. -/
def growth (m : Modifier) : Nat := if m.kind = .explode then m.count else 0

private theorem apply_ends (hsource : RandomSource.InRange σ) (hs : s.OnFaces faces)
    (hkind : m.kind ≠ .explodeCombine) :
    (m.apply faces s : RollM σ _).Ends
      (fun t => t.OnFaces faces ∧ s.size ≤ t.size ∧ t.size ≤ s.size * (1 + m.growth)) AtLimit := by
  have hsame {t : DiceSequence} (ht : t.OnFaces faces ∧ t.size = s.size) :
      t.OnFaces faces ∧ s.size ≤ t.size ∧ t.size ≤ s.size * (1 + m.growth) :=
    ⟨ht.1, Nat.le_of_eq ht.2.symm, ht.2 ▸ Nat.le_mul_of_pos_right _ (by omega)⟩
  rw [apply]
  cases hm : m.kind with
  | keepHigh | keepLow => exact .pure (hsame (hs.keep _ _))
  | reroll => exact (DiceSequence.rerollPasses_ends hsource hs _ _).imp fun _ => hsame
  | explodeCombine => exact absurd hm hkind
  | explode =>
    have hids : ∀ id ∈ s.ids.filter (s.meets (m.conditionsOr faces.high)), id < s.size := fun id hid =>
      hs.built.lt_size_of_mem_ids (List.mem_filter.1 hid).1
    refine (DiceSequence.foldlM_explodeDie_ends hsource hs m.count hids).imp fun t ht => ⟨ht.1, ht.2.1, ?_⟩
    have hlength : (s.ids.filter (s.meets (m.conditionsOr faces.high))).length ≤ s.size :=
      hs.built.length_ids ▸ List.length_filter_le _ _
    calc t.size
      _ ≤ s.size + (s.ids.filter (s.meets (m.conditionsOr faces.high))).length * m.count := ht.2.2
      _ ≤ s.size + s.size * m.count := Nat.add_le_add_left (Nat.mul_le_mul_right _ hlength) _
      _ = s.size * (1 + m.growth) := by rw [growth, if_pos hm, Nat.mul_add, Nat.mul_one]

private theorem foldlM_apply_ends (hsource : RandomSource.InRange σ) (hs : s.OnFaces faces)
    (hkinds : ∀ m ∈ ms, m.kind ≠ .explodeCombine) :
    (ms.foldlM (fun s m => m.apply faces s) s : RollM σ _).Ends
      (fun t => t.OnFaces faces ∧ s.size ≤ t.size ∧ t.size ≤ s.size * (ms.map (1 + ·.growth)).prod) AtLimit := by
  induction ms generalizing s with
  | nil => exact .pure ⟨hs, Nat.le_refl _, by simp⟩
  | cons m ms ih =>
    obtain ⟨hm, hms⟩ := List.forall_mem_cons.1 hkinds
    rw [List.foldlM_cons]
    refine (apply_ends hsource hs hm).bind fun t ht => (ih ht.1 hms).imp fun u hu => ⟨hu.1, ?_, ?_⟩
    · exact Nat.le_trans ht.2.1 hu.2.1
    · rw [List.map_cons, List.prod_cons, ← Nat.mul_assoc]
      exact Nat.le_trans hu.2.2 (Nat.mul_le_mul_right _ ht.2.2)

private theorem prod_growth_of_not_explode (h : ∀ m ∈ ms, m.kind ≠ .explode) : (ms.map (1 + ·.growth)).prod = 1 := by
  refine List.prod_eq_one fun n hn => ?_
  obtain ⟨m, hm, rfl⟩ := List.mem_map.1 hn
  rw [growth, if_neg (h m hm), Nat.add_zero]

/-- Only one modifier makes a pool grow. -/
theorem prod_growth_of_explode (hnodup : (ms.map (·.kind)).Nodup) (hm : m ∈ ms) (hkind : m.kind = .explode) :
    (ms.map (1 + ·.growth)).prod = 1 + m.count := by
  obtain ⟨front, back, rfl⟩ := List.append_of_mem hm
  rw [List.map_append, List.map_cons, List.nodup_middle, List.nodup_cons, ← List.map_append] at hnodup
  have hothers : ∀ n ∈ front ++ back, n.kind ≠ .explode := fun n hn he =>
    hnodup.1 (List.mem_map.2 ⟨n, hn, he.trans hkind.symm⟩)
  obtain ⟨hfront, hback⟩ := List.forall_mem_append.1 hothers
  rw [List.map_append, List.map_cons, List.prod_append, List.prod_cons, prod_growth_of_not_explode hfront,
    prod_growth_of_not_explode hback, growth, if_pos hkind, Nat.one_mul, Nat.mul_one]

end Modifier

namespace DicePool
variable {p q : DicePool}

/-- The pool `p` with values and dice as a source that keeps to its ranges leaves them. -/
structure InPlay (p q : DicePool) : Prop where
  same : q = { p with rolled := q.rolled, results := q.results }
  length : q.rolled.length = p.count
  rolled : ∀ v ∈ q.rolled, p.faces.Shows v
  dice : q.results.OnFaces p.faces
  least : p.count ≤ q.results.size
  most : q.results.size ≤ p.count * (p.modifiers.map (1 + ·.growth)).prod

section Calls
variable (hsource : RandomSource.InRange σ) (hplain : p.conditions = [])
  (hkinds : ∀ m ∈ p.modifiers, m.kind ≠ .explodeCombine)
include hsource hplain hkinds

private theorem rework_inPlay {rolled : List Number} (hlength : rolled.length = p.count)
    (hrolled : ∀ v ∈ rolled, p.faces.Shows v) (results : DiceSequence) :
    (rework { p with rolled, results } : RollM σ _).Ends (fun t => p.InPlay { p with rolled, results := t }) AtLimit := by
  have hstart := DiceSequence.OnFaces.ofValues hrolled
  have hsize : (DiceSequence.ofValues rolled).size = p.count := by
    rw [← hstart.built.length_toList, DiceSequence.toList_ofValues, List.length_map, hlength]
  have hempty : p.conditions.isEmpty = true := by rw [hplain, List.isEmpty_nil]
  refine (Modifier.foldlM_apply_ends hsource hstart hkinds).bind fun t ht => .pure ?_
  rw [hsize] at ht
  rw [if_pos hempty]
  exact ⟨rfl, hlength, hrolled, ht.1, ht.2.1, ht.2.2⟩

/-- What was rolled before makes no difference. -/
theorem roll_inPlay (rolled : List Number) (results : DiceSequence) :
    (roll { p with rolled, results } : RollM σ _).Ends p.InPlay AtLimit :=
  (Cup.roll_ends hsource p.count p.faces).bind fun _ ⟨hlength, hshown⟩ =>
    (rework_inPlay hsource hplain hkinds hlength hshown results).bind fun _ ht => .pure ht

private theorem reapply_inPlay (hq : p.InPlay q) : (q.reapply : RollM σ _).Ends p.InPlay AtLimit := by
  rw [hq.same]
  exact (rework_inPlay hsource hplain hkinds hq.length hq.rolled q.results).bind fun _ ht => .pure ht

end Calls

/-- What calls that succeed make of a pool, the first of them a roll. -/
inductive Handled (σ : Type) [RandomSource σ] (p : DicePool) : DicePool → Prop
  | roll {q : DicePool} {cup cup' : Cup σ} (h : p.roll.run.run cup = (.ok q, cup')) : Handled σ p q
  | rollAgain {q r : DicePool} {cup cup' : Cup σ} (hq : Handled σ p q) (h : q.roll.run.run cup = (.ok r, cup')) :
    Handled σ p r
  | reapply {q r : DicePool} {cup cup' : Cup σ} (hq : Handled σ p q) (h : q.reapply.run.run cup = (.ok r, cup')) :
    Handled σ p r

private theorem Handled.inPlay (hsource : RandomSource.InRange σ) (hplain : p.conditions = [])
    (hkinds : ∀ m ∈ p.modifiers, m.kind ≠ .explodeCombine) (h : p.Handled σ q) : p.InPlay q := by
  induction h with
  | roll hrun => exact (roll_inPlay hsource hplain hkinds p.rolled p.results).of_ok hrun
  | rollAgain _ hrun ih =>
    rw [ih.same] at hrun
    exact (roll_inPlay hsource hplain hkinds _ _).of_ok hrun
  | reapply _ hrun ih => exact (reapply_inPlay hsource hplain hkinds ih).of_ok hrun

/-- Kept, dropped, rerolled and exploded dice of a plain pool. Attach any such modifiers in any order, whatever was rolled
before, and roll and rework the pool as often as it succeeds, with a source that keeps to its ranges: after each call all
dice, also those dropped, show a face. They are as many as the pool has, if nothing explodes, and else at most so many for
each of them as the attached explosion's count and one more. Of each kind there is one modifier at most. -/
theorem onFaces_of_handled (hsource : RandomSource.InRange σ) (hbare : p.modifiers = []) (hplain : p.conditions = [])
    {written : List (WrittenModifier × List Condition)} (hwritten : ∀ w ∈ written, ∀ r, w.1 ≠ .explodeCombine r)
    (hq : (written.foldl (fun q w => q.attach (w.1.resolve q.count w.2)) p).Handled σ q) :
    (∀ d ∈ q.results.toList,
      ∃ x : Int64, d.value = .whole x ∧ p.faces.low.toInt ≤ x.toInt ∧ x.toInt ≤ p.faces.high.toInt) ∧
    q.results.toList.length = q.results.size ∧
    ((∀ m ∈ q.modifiers, m.kind ≠ .explode) → q.results.toList.length = p.count) ∧
    (∀ m ∈ q.modifiers, m.kind = .explode →
      p.count ≤ q.results.toList.length ∧ q.results.toList.length ≤ p.count * (1 + m.count)) ∧
    (q.modifiers.map (·.kind)).Nodup := by
  let ms := attached (written.map fun w => w.1.resolve p.count w.2)
  have hpool : written.foldl (fun q w => q.attach (w.1.resolve q.count w.2)) p = { p with modifiers := ms } :=
    (foldl_attach_resolved (fun n w => w.1.resolve n w.2) p written).trans (foldl_attach p hbare _)
  rw [hpool] at hq
  have hkinds : ∀ m ∈ ms, m.kind ≠ .explodeCombine := fun m hm => by
    obtain ⟨⟨w, conditions⟩, hw, rfl⟩ := List.mem_map.1 (mem_of_mem_attached hm)
    cases w with
    | explodeCombine r => exact absurd rfl (hwritten _ hw r)
    | keepHigh | keepLow | dropHigh | dropLow | explode | reroll => nofun
  have hplay := Handled.inPlay (p := { p with modifiers := ms }) hsource hplain hkinds hq
  have hmodifiers : q.modifiers = ms := congrArg DicePool.modifiers hplay.same
  have hlength := hplay.dice.built.length_toList
  rw [hmodifiers, hlength]
  refine ⟨fun d => hplay.dice.shows_of_mem, rfl, fun hnone => ?_, fun m hm hkind => ⟨hplay.least, ?_⟩, nodup_attached _⟩
  · have hmost := hplay.most
    rw [Modifier.prod_growth_of_not_explode hnone, Nat.mul_one] at hmost
    exact Nat.le_antisymm hmost hplay.least
  · have hmost := hplay.most
    rwa [Modifier.prod_growth_of_explode (nodup_attached _) hm hkind] at hmost

/-- Two dice that were given another explosion in place of their first one, rolled and then reworked. -/
theorem onFaces_of_handled_exploding :
    let p : DicePool := { count := 2, faces := .sided 6 }
    let written : List (WrittenModifier × List Condition) :=
      [(.explode (.times 5), []), (.reroll (.times 1), []), (.dropLow 1, []),
        (.explode (.times 2), [⟨.greaterEqual, .whole 4⟩])]
    let pool := written.foldl (fun q w => q.attach (w.1.resolve q.count w.2)) p
    let cup : Cup Generator := Cup.fill none ⟨3⟩
    ∃ q r cup' cup'', pool.roll.run.run cup = (.ok q, cup') ∧ q.results.text = "[4!d, 4!d, 6, 4!d, 2rd]" ∧
      q.reapply.run.run cup = (.ok r, cup'') ∧
      (∀ d ∈ r.results.toList, ∃ x : Int64, d.value = .whole x ∧ 1 ≤ x.toInt ∧ x.toInt ≤ 6) ∧
      2 ≤ r.results.toList.length ∧ r.results.toList.length ≤ 2 * (1 + 2) := by
  intro p written pool cup
  obtain ⟨q, cup', hroll⟩ := pool.roll_rolls.exists_ok cup rfl
  obtain ⟨r, cup'', hreapply⟩ := q.reapply_rolls.exists_ok cup rfl
  have hq : q.bare = pool.bare := (DiceGroup.pool_roll_ends pool).of_ok hroll
  have hr : r.bare = q.bare := (DiceGroup.pool_reapply_ends q).of_ok hreapply
  have hmodifiers : r.bare.modifiers = pool.bare.modifiers := congrArg DicePool.modifiers (hr.trans hq)
  have hexplosion : ⟨.explode, 2, [⟨.greaterEqual, .whole 4⟩]⟩ ∈ r.bare.modifiers := by
    rw [hmodifiers]
    exact List.mem_cons_self
  have hwritten : ∀ w ∈ written, ∀ r, w.1 ≠ .explodeCombine r := by simp [written]
  obtain ⟨hfaces, -, -, hcount, -⟩ := onFaces_of_handled Generator.inRange (p := p) rfl rfl hwritten
    ((Handled.roll hroll).reapply hreapply)
  have htext : (pool.roll.run.run cup).1.toOption.map (·.results.text) = some "[4!d, 4!d, 6, 4!d, 2rd]" := by
    decide +kernel
  rw [hroll] at htext
  refine ⟨q, r, cup', cup'', hroll, Option.some.inj htext, hreapply, hfaces, ?_⟩
  exact hcount _ hexplosion rfl

end DicePool
end Tabletop
