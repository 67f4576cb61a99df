import Tabletop.Dice.Modifier

/-! Rolled dice in the order they are shown. A die keeps the number it was given when it came in, however
many dice are put between it and its neighbours later: the order is a chain of links through the
numbered slots. -/
namespace Tabletop

/-- One rolled die. What is shown follows the value unless success counting changes the value alone. -/
structure Die where
  value : Number
  usable : Bool
  shown : String
  tags : List Tag
  deriving Repr

namespace Die

def rolled (value : Number) : Die := ⟨value, true, value.text, []⟩

/-- Adds a tag, once. -/
def tag (d : Die) (t : Tag) : Die :=
  if d.tags.contains t then d else { d with tags := d.tags ++ [t] }

theorem tag_of_mem {d : Die} {t : Tag} (h : t ∈ d.tags) : d.tag t = d := if_pos (List.contains_iff_mem.2 h)

theorem mem_tags_tag (d : Die) (t : Tag) : t ∈ (d.tag t).tags := by
  rw [tag]
  split
  · exact List.contains_iff_mem.1 (by assumption)
  · exact List.mem_append_right _ List.mem_cons_self

theorem value_tag (d : Die) (t : Tag) : (d.tag t).value = d.value := by
  rw [tag]
  split <;> rfl

theorem usable_tag (d : Die) (t : Tag) : (d.tag t).usable = d.usable := by
  rw [tag]
  split <;> rfl

theorem shown_tag (d : Die) (t : Tag) : (d.tag t).shown = d.shown := by
  rw [tag]
  split <;> rfl

def setValue (d : Die) (value : Number) : Die := { d with value, shown := value.text }

/-- What the die adds to its pool. -/
def total (d : Die) : Number := if d.usable then d.value else .zero

def tagText (d : Die) : String := String.ofList (d.tags.map Tag.char)

def text (d : Die) : String := d.shown ++ d.tagText

end Die

/-- Dice by number, each linked to the one shown after it. -/
structure DiceSequence where
  slots : Array (Die × Option Nat)
  first : Option Nat
  last : Option Nat
  deriving Repr

namespace DiceSequence

def empty : DiceSequence := ⟨#[], none, none⟩

def size (s : DiceSequence) : Nat := s.slots.size

def die? (s : DiceSequence) (id : Nat) : Option Die := s.slots[id]?.map (·.1)

def next? (s : DiceSequence) (id : Nat) : Option Nat := s.slots[id]?.bind (·.2)

/-- Changes one die where it stands. -/
def modify (s : DiceSequence) (id : Nat) (f : Die → Die) : DiceSequence :=
  { s with slots := s.slots.modify id fun (d, next) => (f d, next) }

private def link (slots : Array (Die × Option Nat)) (id next : Nat) : Array (Die × Option Nat) :=
  slots.modify id fun (d, _) => (d, some next)

theorem die?_modify (s : DiceSequence) (id : Nat) (f : Die → Die) (j : Nat) :
    (s.modify id f).die? j = if id = j then (s.die? j).map f else s.die? j := by
  simp only [die?, modify, Array.getElem?_modify]
  split
  · cases s.slots[j]? <;> rfl
  · rfl

private theorem fst_link (slots : Array (Die × Option Nat)) (id next j : Nat) :
    (link slots id next)[j]?.map (·.1) = slots[j]?.map (·.1) := by
  rw [link, Array.getElem?_modify]
  split
  · cases slots[j]? <;> rfl
  · rfl

theorem slots_modify (s : DiceSequence) (id : Nat) (f : Die → Die) (j : Nat) :
    (s.modify id f).slots[j]? = s.slots[j]?.map fun p => (if j = id then f p.1 else p.1, p.2) := by
  rw [modify, Array.getElem?_modify]
  rcases Decidable.em (id = j) with rfl | hne
  · simp
  · simp [hne, Ne.symm hne]

/-- Puts a die at the end. Its number is the size before. -/
def push (s : DiceSequence) (d : Die) : DiceSequence :=
  let id := s.size
  match s.last with
  | some last => ⟨(link s.slots last id).push (d, none), s.first, some id⟩
  | none => ⟨s.slots.push (d, none), some id, some id⟩

theorem die?_push (s : DiceSequence) (d : Die) (j : Nat) :
    (s.push d).die? j = if j = s.size then some d else s.die? j := by
  rw [push, die?, die?, size]
  cases s.last with
  | none =>
    rw [Array.getElem?_push]
    split <;> rfl
  | some last =>
    rw [Array.getElem?_push, link, Array.size_modify, ← link]
    split
    · rfl
    · exact fst_link s.slots last s.slots.size j

/-- Puts a die right behind another. Its number is the size before. -/
def insertAfter (s : DiceSequence) (after : Nat) (d : Die) : DiceSequence :=
  if after < s.size then
    let id := s.size
    ⟨(link s.slots after id).push (d, s.next? after), s.first,
      if s.last = some after then some id else s.last⟩
  else s

/-- The slots on both sides of the new link are written, and no others. -/
theorem slots_insertAfter (s : DiceSequence) {after : Nat} (h : after < s.size) (d : Die) (j : Nat) :
    (s.insertAfter after d).slots[j]? =
      if j = s.size then some (d, s.next? after)
      else if j = after then s.slots[j]?.map fun p => (p.1, some s.size)
      else s.slots[j]? := by
  rw [insertAfter, if_pos h, Array.getElem?_push, link, Array.size_modify, Array.getElem?_modify]
  rw [size]
  rcases Decidable.em (j = s.slots.size) with hnew | hold
  · rw [if_pos hnew, if_pos hnew]
  · rw [if_neg hold, if_neg hold]
    rcases Decidable.em (after = j) with rfl | hne
    · rw [if_pos rfl]
    · rw [if_neg hne, if_neg (Ne.symm hne)]

/-- Pushing is inserting behind the die at the end. -/
theorem push_eq_insertAfter {s : DiceSequence} {last : Nat} (hlast : s.last = some last) (h : last < s.size)
    (hnext : s.next? last = none) (d : Die) : s.push d = s.insertAfter last d := by
  simp only [push, insertAfter, hlast, hnext, if_pos h, if_pos]

def ofValues (values : List Number) : DiceSequence :=
  values.foldl (fun s v => s.push (.rolled v)) empty

/-- Follows the links from a die, for at most `steps` dice. -/
def walk (s : DiceSequence) : (steps : Nat) → Option Nat → List Nat
  | 0, _ => []
  | _, none => []
  | steps + 1, some id => id :: walk s steps (s.next? id)

/-- The numbers of the dice in the order shown. -/
def ids (s : DiceSequence) : List Nat := s.walk s.size s.first

/-- The dice in the order shown. -/
def toList (s : DiceSequence) : List Die := s.ids.filterMap s.die?

def values (s : DiceSequence) : List Number := s.toList.map (·.value)

def sum (s : DiceSequence) : Number := .sum (s.toList.map (·.total))

def text (s : DiceSequence) : String :=
  "[" ++ ", ".intercalate (s.toList.map (·.text)) ++ "]"

end DiceSequence
end Tabletop
