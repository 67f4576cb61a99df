import Mathlib.Data.List.Nodup
import Tabletop.Dice.Rules

/-! The order in which dice are shown. In a sequence made by its own operations the links go through every slot once.
Such a sequence is a list of numbered dice, and what an operation does to it is said of that list. -/
namespace Tabletop.DiceSequence
variable {s : DiceSequence} {dice : List (Nat × Die)}

/-- The links lead from each of these dice to the next, and end behind the last. -/
def Linked (s : DiceSequence) : List (Nat × Die) → Prop
  | [] => True
  | (id, d) :: rest => s.slots[id]? = some (d, rest.head?.map (·.1)) ∧ s.Linked rest

/-- The sequence is this list of numbered dice. -/
structure InOrder (s : DiceSequence) (dice : List (Nat × Die)) : Prop where
  first : s.first = dice.head?.map (·.1)
  last : s.last = dice.getLast?.map (·.1)
  linked : s.Linked dice
  perm : (dice.map (·.1)).Perm (List.range s.size)

/-- A sequence that comes out of the operations. Dice are only put behind dice that are there. -/
inductive Built : DiceSequence → Prop
  | empty : Built .empty
  | push {s : DiceSequence} (hs : Built s) (d : Die) : Built (s.push d)
  | insertAfter {s : DiceSequence} (hs : Built s) {after : Nat} (h : after < s.size) (d : Die) :
    Built (s.insertAfter after d)
  | modify {s : DiceSequence} (hs : Built s) (id : Nat) (f : Die → Die) : Built (s.modify id f)

namespace Linked

/-- Links are read off the slots of the listed dice alone. -/
theorem congr {t : DiceSequence} (h : s.Linked dice) (hslots : ∀ p ∈ dice, t.slots[p.1]? = s.slots[p.1]?) :
    t.Linked dice := by
  induction dice with
  | nil => trivial
  | cons p rest ih =>
    obtain ⟨hp, hrest⟩ := h
    exact ⟨(hslots p List.mem_cons_self).trans hp, ih hrest fun q hq => hslots q (List.mem_cons_of_mem p hq)⟩

private theorem of_append {front : List (Nat × Die)} (h : s.Linked (front ++ dice)) : s.Linked dice := by
  induction front with
  | nil => exact h
  | cons _ _ ih => exact ih h.2

/-- The end of a list may be changed behind dice whose slots stay, as long as it starts with the same number. -/
theorem graft {t : DiceSequence} {front rest : List (Nat × Die)} (h : s.Linked (front ++ dice))
    (hfront : ∀ p ∈ front, t.slots[p.1]? = s.slots[p.1]?) (hrest : t.Linked rest)
    (hhead : rest.head?.map (·.1) = dice.head?.map (·.1)) : t.Linked (front ++ rest) := by
  induction front with
  | nil => exact hrest
  | cons p front ih =>
    obtain ⟨hp, htail⟩ := h
    refine ⟨?_, ih htail fun q hq => hfront q (List.mem_cons_of_mem p hq)⟩
    have hnext : (front ++ rest).head?.map (·.1) = (front ++ dice).head?.map (·.1) := by
      cases front with
      | nil => exact hhead
      | cons q front => rfl
    exact (hfront p List.mem_cons_self).trans (hp.trans (congrArg (fun next => some (p.2, next)) hnext.symm))

private theorem walk (h : s.Linked dice) {steps : Nat} (hsteps : dice.length ≤ steps) :
    s.walk steps (dice.head?.map (·.1)) = dice.map (·.1) := by
  induction dice generalizing steps with
  | nil => cases steps <;> rfl
  | cons p rest ih =>
    cases steps with
    | zero => exact absurd hsteps (Nat.not_succ_le_zero _)
    | succ steps =>
      have hnext : s.next? p.1 = rest.head?.map (·.1) := by
        rw [next?, h.1]
        rfl
      change p.1 :: s.walk steps (s.next? p.1) = _
      rw [hnext, ih h.2 (Nat.le_of_succ_le_succ hsteps), List.map_cons]

end Linked

theorem size_modify (s : DiceSequence) (id : Nat) (f : Die → Die) : (s.modify id f).size = s.size :=
  Array.size_modify ..

theorem size_insertAfter {after : Nat} (h : after < s.size) (d : Die) : (s.insertAfter after d).size = s.size + 1 := by
  rw [insertAfter, if_pos h]
  exact (Array.size_push ..).trans (congrArg (· + 1) (Array.size_modify ..))

theorem die?_insertAfter {after : Nat} (h : after < s.size) (d : Die) (j : Nat) :
    (s.insertAfter after d).die? j = if j = s.size then some d else s.die? j := by
  rw [die?, slots_insertAfter s h, die?]
  split
  · rfl
  · split
    · rw [Option.map_map]
      rfl
    · rfl

namespace InOrder

theorem nodup (h : s.InOrder dice) : (dice.map (·.1)).Nodup := h.perm.nodup_iff.2 List.nodup_range

private theorem lt_size (h : s.InOrder dice) {p : Nat × Die} (hp : p ∈ dice) : p.1 < s.size :=
  List.mem_range.1 (h.perm.mem_iff.1 (List.mem_map_of_mem hp))

theorem length_eq (h : s.InOrder dice) : dice.length = s.size := by
  have hlength := h.perm.length_eq
  rwa [List.length_map, List.length_range] at hlength

theorem ne_of_mem {front back : List (Nat × Die)} {id : Nat} {d : Die} (h : s.InOrder (front ++ (id, d) :: back))
    {p : Nat × Die} (hp : p ∈ front ++ back) : p.1 ≠ id := by
  have hnodup := h.nodup
  rw [List.map_append, List.map_cons, List.nodup_middle, List.nodup_cons, ← List.map_append] at hnodup
  intro he
  exact hnodup.1 (List.mem_map.2 ⟨p, hp, he⟩)

theorem die? (h : s.InOrder dice) {id : Nat} {d : Die} (hd : (id, d) ∈ dice) : s.die? id = some d := by
  obtain ⟨front, back, rfl⟩ := List.append_of_mem hd
  rw [DiceSequence.die?, h.linked.of_append.1]
  rfl

theorem meets (h : s.InOrder dice) {conditions : List Condition} {p : Nat × Die} (hp : p ∈ dice) :
    s.meets conditions p.1 = Condition.anyMet conditions p.2.value := by
  rw [DiceSequence.meets, h.die? hp, Option.any_some]

theorem ids (h : s.InOrder dice) : s.ids = dice.map (·.1) := by
  rw [DiceSequence.ids, h.first, h.linked.walk (Nat.le_of_eq h.length_eq)]

theorem toList (h : s.InOrder dice) : s.toList = dice.map (·.2) := by
  have hdice : ∀ p ∈ dice, s.die? p.1 = some p.2 := fun p hp => h.die? hp
  rw [DiceSequence.toList, h.ids, List.filterMap_map, ← List.filterMap_eq_map]
  exact List.filterMap_congr hdice

theorem map_congr {α : Type} {as : List α} {f g : α → Nat × Die} (h : s.InOrder (as.map f)) (hfg : ∀ a ∈ as, f a = g a) :
    s.InOrder (as.map g) := by
  rwa [← List.map_congr_left hfg]

theorem empty : DiceSequence.empty.InOrder [] := ⟨rfl, rfl, trivial, .nil⟩

theorem modify (h : s.InOrder dice) (id : Nat) (f : Die → Die) :
    (s.modify id f).InOrder (dice.map fun p => (p.1, if p.1 = id then f p.2 else p.2)) where
  first := by
    rw [List.head?_map, Option.map_map]
    exact h.first
  last := by
    rw [List.getLast?_map, Option.map_map]
    exact h.last
  linked := by
    have hlinked := h.linked
    clear h
    induction dice with
    | nil => trivial
    | cons p rest ih =>
      refine ⟨?_, ih hlinked.2⟩
      rw [slots_modify, hlinked.1, List.head?_map, Option.map_map]
      rfl
  perm := by
    rw [List.map_map, size_modify]
    exact h.perm

/-- Only one die has the number, so the others stay as they are. -/
theorem modify_mid {front back : List (Nat × Die)} {id : Nat} {d : Die}
    (h : s.InOrder (front ++ (id, d) :: back)) (f : Die → Die) :
    (s.modify id f).InOrder (front ++ (id, f d) :: back) := by
  have hother (p : Nat × Die) (hp : p ∈ front ++ back) : (p.1, if p.1 = id then f p.2 else p.2) = p := by
    rw [if_neg (h.ne_of_mem hp)]
  have hmodified := h.modify id f
  rw [List.map_append, List.map_cons, if_pos rfl,
    List.map_congr_left fun p hp => hother p (List.mem_append_left back hp),
    List.map_congr_left fun p hp => hother p (List.mem_append_right front hp)] at hmodified
  simpa using hmodified

/-- The new die stands right behind the other one, under the next free number. -/
theorem insertAfter {front back : List (Nat × Die)} {id : Nat} {d : Die}
    (h : s.InOrder (front ++ (id, d) :: back)) (new : Die) :
    (s.insertAfter id new).InOrder (front ++ (id, d) :: (s.size, new) :: back) := by
  have hlt : id < s.size := h.lt_size (List.mem_append_right front List.mem_cons_self)
  have hslot := h.linked.of_append.1
  have hnext : s.next? id = back.head?.map (·.1) := by
    rw [next?, hslot]
    rfl
  have hsame (p : Nat × Die) (hp : p ∈ front ++ back) : (s.insertAfter id new).slots[p.1]? = s.slots[p.1]? := by
    have hold : p ∈ front ++ (id, d) :: back := by
      rcases List.mem_append.1 hp with hfront | hback
      · exact List.mem_append_left _ hfront
      · exact List.mem_append_right _ (List.mem_cons_of_mem _ hback)
    rw [s.slots_insertAfter hlt, if_neg (Nat.ne_of_lt (h.lt_size hold)), if_neg (h.ne_of_mem hp)]
  refine ⟨?_, ?_, ?_, ?_⟩
  · rw [DiceSequence.insertAfter, if_pos hlt]
    refine h.first.trans ?_
    cases front <;> rfl
  · rw [DiceSequence.insertAfter, if_pos hlt]
    change (if s.last = some id then some s.size else s.last) = _
    rw [h.last]
    cases back with
    | nil => simp
    | cons q back =>
      obtain ⟨p, hp⟩ : ∃ p, (q :: back).getLast? = some p := ⟨_, List.getLast?_eq_some_getLast (List.cons_ne_nil q back)⟩
      have hne : p.1 ≠ id := h.ne_of_mem (List.mem_append_right front (List.mem_of_getLast? hp))
      simp [List.getLast?_append, List.getLast?_cons_cons, hp, hne]
  · refine h.linked.graft (fun p hp => hsame p (List.mem_append_left back hp)) ⟨?_, ?_, ?_⟩ rfl
    · rw [s.slots_insertAfter hlt, if_neg (Nat.ne_of_lt hlt), if_pos rfl, hslot]
      rfl
    · rw [s.slots_insertAfter hlt, if_pos rfl, hnext]
    · exact (h.linked.of_append.2).congr fun p hp => hsame p (List.mem_append_right front hp)
  · rw [size_insertAfter hlt, List.range_succ]
    refine .trans ?_ (h.perm.append_right _)
    simp only [List.map_append, List.map_cons, List.append_assoc, List.cons_append]
    refine .append_left _ (.cons _ ?_)
    exact (List.perm_append_singleton _ _).symm

theorem push (h : s.InOrder dice) (d : Die) : (s.push d).InOrder (dice ++ [(s.size, d)]) := by
  rcases List.eq_nil_or_concat dice with rfl | ⟨front, ⟨id, e⟩, rfl⟩
  · have hsize : s.size = 0 := h.length_eq.symm
    have hslots : s.slots = #[] := Array.eq_empty_of_size_eq_zero hsize
    have hlast : s.last = none := h.last
    rw [DiceSequence.push, hlast, hsize]
    refine ⟨rfl, rfl, ⟨?_, trivial⟩, ?_⟩
    · rw [hslots]
      rfl
    · simp [size, hslots]
  · rw [List.concat_eq_append] at h ⊢
    have hlast : s.last = some id := by simpa using h.last
    have hlt : id < s.size := h.lt_size (List.mem_append_right front List.mem_cons_self)
    have hnext : s.next? id = none := by
      rw [next?, h.linked.of_append.1]
      rfl
    rw [push_eq_insertAfter hlast hlt hnext, List.append_assoc]
    exact h.insertAfter d

theorem ofValues (values : List Number) :
    (ofValues values).InOrder (values.zipIdx.map fun p => (p.2, .rolled p.1)) := by
  have hpush {s : DiceSequence} {dice : List (Nat × Die)} (h : s.InOrder dice) :
      (values.foldl (fun s v => s.push (.rolled v)) s).InOrder
        (dice ++ (values.zipIdx s.size).map fun p => (p.2, .rolled p.1)) := by
    induction values generalizing s dice with
    | nil => simpa using h
    | cons v values ih =>
      have hrest := ih (h.push (.rolled v))
      have hsize : (s.push (.rolled v)).size = s.size + 1 := by
        rw [← (h.push (.rolled v)).length_eq, List.length_append, h.length_eq]
        rfl
      rw [hsize, List.append_assoc] at hrest
      exact hrest
  exact hpush InOrder.empty

end InOrder

theorem toList_ofValues (values : List Number) : (ofValues values).toList = values.map .rolled := by
  rw [(InOrder.ofValues values).toList, List.map_map]
  change values.zipIdx.map (Die.rolled ∘ Prod.fst) = _
  rw [← List.map_map, List.zipIdx_map_fst]

theorem Built.exists_inOrder (hs : s.Built) : ∃ dice, s.InOrder dice := by
  induction hs with
  | empty => exact ⟨[], .empty⟩
  | push _ d ih =>
    obtain ⟨dice, h⟩ := ih
    exact ⟨_, h.push d⟩
  | @insertAfter s _ after hlt d ih =>
    obtain ⟨dice, h⟩ := ih
    have hmem : after ∈ dice.map (·.1) := h.perm.mem_iff.2 (List.mem_range.2 hlt)
    obtain ⟨⟨id, e⟩, hp, rfl⟩ := List.mem_map.1 hmem
    obtain ⟨front, back, rfl⟩ := List.append_of_mem hp
    exact ⟨_, h.insertAfter d⟩
  | modify _ id f ih =>
    obtain ⟨dice, h⟩ := ih
    exact ⟨_, h.modify id f⟩

theorem Built.ofValues (values : List Number) : (ofValues values).Built := by
  have hpush {s : DiceSequence} (hs : s.Built) : (values.foldl (fun s v => s.push (.rolled v)) s).Built := by
    induction values generalizing s with
    | nil => exact hs
    | cons v values ih => exact ih (hs.push (.rolled v))
  exact hpush .empty

end Tabletop.DiceSequence
