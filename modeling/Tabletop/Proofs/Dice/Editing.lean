import Tabletop.Proofs.Dice.Order

/-! Sequences as they are edited. Calls on a sequence are matched by calls on a plain list of numbered dice, one for one,
so whatever is done to a sequence, its links keep to the order of that list. -/
namespace Tabletop.DiceSequence

/-- A call on a sequence: a new die at the end, a new die right behind another one, or a change to a die. -/
inductive Edit where
  | push (d : Die)
  | insertAfter (id : Nat) (d : Die)
  | update (id : Nat) (f : Die → Die)

/-- Following the links from one of them goes through these dice, and ends. -/
inductive Visits (s : DiceSequence) : Option Nat → List Nat → Prop
  | done : Visits s none []
  | step {id : Nat} {d : Die} {next : Option Nat} {rest : List Nat} (h : s.slots[id]? = some (d, next))
    (hrest : Visits s next rest) : Visits s (some id) (id :: rest)

/-- Puts an element right behind the one with a number. -/
def insertBehind (id : Nat) (new : Nat × Die) : List (Nat × Die) → List (Nat × Die)
  | [] => []
  | p :: dice => if p.1 = id then p :: new :: dice else p :: insertBehind id new dice

namespace Edit

def apply (s : DiceSequence) : Edit → DiceSequence
  | push d => s.push d
  | insertAfter id d => s.insertAfter id d
  | update id f => s.modify id f

/-- The call on a plain list, in which new dice are numbered as they come. -/
def applyList (dice : List (Nat × Die)) : Edit → List (Nat × Die)
  | push d => dice ++ [(dice.length, d)]
  | insertAfter id d => insertBehind id (dice.length, d) dice
  | update id f => dice.map fun p => (p.1, if p.1 = id then f p.2 else p.2)

/-- Dice are put behind dice that have their number already. -/
def Meant (s : DiceSequence) : Edit → Prop
  | insertAfter id _ => id < s.size
  | push _ | update _ _ => True

/-- What the call does to the die with a number that was given before. -/
def change (id : Nat) : Edit → Die → Die
  | update j f => if j = id then f else fun d => d
  | push _ | insertAfter _ _ => fun d => d

end Edit

/-- The sequence after some calls, one after the other. -/
def edited (s : DiceSequence) (edits : List Edit) : DiceSequence := edits.foldl Edit.apply s

/-- Every call is meant for the sequence that the calls before it leave. -/
def Meant (s : DiceSequence) : List Edit → Prop
  | [] => True
  | e :: edits => e.Meant s ∧ (e.apply s).Meant edits

variable {s : DiceSequence} {dice : List (Nat × Die)}

private theorem insertBehind_eq {front back : List (Nat × Die)} {id : Nat} {d : Die} (h : ∀ p ∈ front, p.1 ≠ id)
    (new : Nat × Die) : insertBehind id new (front ++ (id, d) :: back) = front ++ (id, d) :: new :: back := by
  induction front with
  | nil => exact if_pos rfl
  | cons p front ih =>
    obtain ⟨hp, hfront⟩ := List.forall_mem_cons.1 h
    rw [List.cons_append, insertBehind, if_neg hp, ih hfront]
    rfl

private theorem Linked.visits (h : s.Linked dice) : s.Visits (dice.head?.map (·.1)) (dice.map (·.1)) := by
  induction dice with
  | nil => exact .done
  | cons p dice ih => exact .step h.1 (ih h.2)

private theorem InOrder.edit (h : s.InOrder dice) {e : Edit} (he : e.Meant s) :
    (e.apply s).InOrder (e.applyList dice) := by
  cases e with
  | push d =>
    rw [Edit.applyList, h.length_eq]
    exact h.push d
  | update id f => exact h.modify id f
  | insertAfter id d =>
    have hid : id ∈ dice.map (·.1) := h.perm.mem_iff.2 (List.mem_range.2 he)
    obtain ⟨⟨id, old⟩, hp, rfl⟩ := List.mem_map.1 hid
    obtain ⟨front, back, rfl⟩ := List.append_of_mem hp
    have hfront : ∀ p ∈ front, p.1 ≠ id := fun p hp => h.ne_of_mem (List.mem_append_left back hp)
    rw [Edit.applyList, h.length_eq, insertBehind_eq hfront]
    exact h.insertAfter d

private theorem InOrder.edited {edits : List Edit} (h : s.InOrder dice) (hedits : s.Meant edits) :
    (s.edited edits).InOrder (edits.foldl Edit.applyList dice) := by
  induction edits generalizing s dice with
  | nil => exact h
  | cons e edits ih => exact ih (h.edit hedits.1) hedits.2

private theorem size_push (s : DiceSequence) (d : Die) : (s.push d).size = s.size + 1 := by
  rw [push]
  cases s.last with
  | none => exact Array.size_push ..
  | some last => exact (Array.size_push ..).trans (congrArg (· + 1) (Array.size_modify ..))

private theorem size_le_edit {e : Edit} (he : e.Meant s) : s.size ≤ (e.apply s).size := by
  cases e with
  | push d => exact Nat.le_trans (Nat.le_succ _) (Nat.le_of_eq (size_push s d).symm)
  | insertAfter id d => exact Nat.le_trans (Nat.le_succ _) (Nat.le_of_eq (size_insertAfter he d).symm)
  | update id f => exact Nat.le_of_eq (size_modify s id f).symm

private theorem die?_edit {e : Edit} (he : e.Meant s) {id : Nat} (hid : id < s.size) :
    (e.apply s).die? id = (s.die? id).map (e.change id) := by
  cases e with
  | push d =>
    rw [Edit.apply, die?_push, if_neg (Nat.ne_of_lt hid)]
    exact (Option.map_id' ..).symm
  | insertAfter after d =>
    rw [Edit.apply, die?_insertAfter he, if_neg (Nat.ne_of_lt hid)]
    exact (Option.map_id' ..).symm
  | update j f =>
    rw [Edit.apply, die?_modify, Edit.change]
    split
    · rfl
    · exact (Option.map_id' ..).symm

/-- A die keeps its number, and later calls change it only by that number. -/
theorem die?_edited {edits : List Edit} (h : s.Meant edits) {id : Nat} (hid : id < s.size) :
    (s.edited edits).die? id = (s.die? id).map fun d => edits.foldl (fun d e => e.change id d) d := by
  induction edits generalizing s with
  | nil => exact (Option.map_id' ..).symm
  | cons e edits ih =>
    have hrest := ih h.2 (Nat.lt_of_lt_of_le hid (size_le_edit h.1))
    rw [die?_edit h.1 hid, Option.map_map] at hrest
    exact hrest

private theorem meant_append {front back : List Edit} :
    s.Meant (front ++ back) ↔ s.Meant front ∧ (s.edited front).Meant back := by
  induction front generalizing s with
  | nil => exact (iff_of_eq (true_and _)).symm
  | cons e front ih => exact (and_congr_right fun _ => ih).trans and_assoc.symm

/-- A sequence is a list. Whatever calls are made on an empty one, in which dice are only put behind dice that are there,
following the links from the first die goes through every number once, stops, and stops at the last die. Its dice, in the
order shown, are those of the list on which the same calls were made. And a number once given names the same die for good,
changed by nothing but the changes to that number. -/
theorem edited_visits {edits : List Edit} (h : empty.Meant edits) :
    let s := empty.edited edits
    let dice := edits.foldl Edit.applyList []
    s.Visits s.first s.ids ∧
    s.ids.getLast? = s.last ∧
    s.ids.Perm (List.range s.size) ∧
    s.ids = dice.map (·.1) ∧
    s.toList = dice.map (·.2) ∧
    (∀ p ∈ dice, s.die? p.1 = some p.2) ∧
    ∀ front back, edits = front ++ back → ∀ id < (empty.edited front).size,
      s.die? id = ((empty.edited front).die? id).map fun d => back.foldl (fun d e => e.change id d) d := by
  intro s dice
  have horder : s.InOrder dice := InOrder.empty.edited h
  refine ⟨?_, ?_, ?_, horder.ids, horder.toList, fun p hp => horder.die? hp, ?_⟩
  · rw [horder.first, horder.ids]
    exact horder.linked.visits
  · rw [horder.ids, horder.last, List.getLast?_map]
  · rw [horder.ids]
    exact horder.perm
  · rintro front back rfl id hid
    have hsplit : s = (empty.edited front).edited back := List.foldl_append
    rw [hsplit]
    exact die?_edited (meant_append.1 h).2 hid

/-- The last die moves on when one is put behind it, so the next one comes behind that. -/
theorem edited_visits_behindLast :
    let die (n : Int64) : Die := .rolled (.whole n)
    let edits : List Edit :=
      [.push (die 1), .push (die 2), .insertAfter 0 (die 10), .insertAfter 1 (die 20), .update 0 (·.setValue (.whole 5)),
        .push (die 3)]
    let s := empty.edited edits
    empty.Meant edits ∧ s.Visits (some 0) [0, 2, 1, 3, 4] ∧ s.last = some 4 ∧
      s.toList = [(die 1).setValue (.whole 5), die 10, die 2, die 20, die 3] := by
  intro die edits s
  have hmeant : empty.Meant edits := by
    refine ⟨trivial, trivial, ?_, ?_, trivial, trivial, trivial⟩
    · exact Nat.zero_lt_two
    · exact Nat.one_lt_succ_succ 1
  obtain ⟨hvisits, hlast, -, hids, hdice, -, -⟩ := edited_visits hmeant
  have hnumbers : s.ids = [0, 2, 1, 3, 4] := hids
  refine ⟨hmeant, ?_, ?_, hdice⟩
  · rw [← hnumbers]
    exact hvisits
  · rw [← hlast, hnumbers]
    rfl

end Tabletop.DiceSequence
