import Mathlib.Data.List.DropRight
import Tabletop.Text.Blank

/-! Texts without blanks around them. -/
namespace Tabletop.Text

private theorem trimStart_trimEnd {cs : List Char} (h : trimStart cs = cs) : trimStart (trimEnd cs) = trimEnd cs := by
  have hstart : trimEnd cs <+: cs := List.rdropWhile_prefix isBlank cs
  rw [trimStart, List.dropWhile_eq_self_iff] at h ⊢
  intro hpos
  have hlength := hstart.length_le
  rw [hstart.getElem hpos]
  exact h (Nat.lt_of_lt_of_le hpos hlength)

theorem trimChars_trimChars (cs : List Char) : trimChars (trimChars cs) = trimChars cs := by
  have hstart : trimStart (trimStart cs) = trimStart cs := List.dropWhile_idempotent isBlank cs
  rw [trimChars, trimChars, trimStart_trimEnd hstart]
  exact List.rdropWhile_idempotent isBlank (trimStart cs)

theorem toList_trim (s : String) : (trim s).toList = trimChars s.toList := String.toList_ofList

theorem trim_trim (s : String) : trim (trim s) = trim s := by rw [trim, toList_trim, trimChars_trimChars, trim]

theorem trimChars_isInfix (cs : List Char) : trimChars cs <:+: cs :=
  (List.rdropWhile_prefix isBlank _).isInfix.trans (List.dropWhile_suffix isBlank).isInfix

theorem mem_of_mem_trimChars {c : Char} {cs : List Char} (h : c ∈ trimChars cs) : c ∈ cs := (trimChars_isInfix cs).subset h

private theorem trimStart_eq_self_iff {cs : List Char} : trimStart cs = cs ↔ ∀ c ∈ cs.head?, isBlank c = false := by
  cases cs with
  | nil => simp [trimStart]
  | cons c cs => simp [trimStart, List.dropWhile_eq_self_iff]

private theorem trimEnd_eq_self_iff {cs : List Char} : trimEnd cs = cs ↔ ∀ c ∈ cs.getLast?, isBlank c = false := by
  rw [trimEnd, ← List.head?_reverse, ← trimStart_eq_self_iff, List.reverse_eq_iff]

/-- A text has no blanks around it if its first and its last character are none. -/
theorem trimChars_eq_self_iff {cs : List Char} :
    trimChars cs = cs ↔ (∀ c ∈ cs.head?, isBlank c = false) ∧ ∀ c ∈ cs.getLast?, isBlank c = false := by
  rw [← trimStart_eq_self_iff, ← trimEnd_eq_self_iff]
  constructor
  · intro h
    have hstart : trimStart cs = cs := by
      have hlength : (trimEnd (trimStart cs)).length ≤ (trimStart cs).length :=
        (List.rdropWhile_prefix isBlank _).length_le
      rw [← trimChars, h] at hlength
      exact (List.dropWhile_suffix isBlank).eq_of_length_le hlength
    rw [trimChars, hstart] at h
    exact ⟨hstart, h⟩
  · rintro ⟨hstart, hend⟩
    rw [trimChars, hstart, hend]

theorem trimStart_cons_of_isBlank {c : Char} (h : isBlank c = true) (cs : List Char) :
    trimStart (c :: cs) = trimStart cs := List.dropWhile_cons_of_pos h

private theorem trimEnd_concat_of_isBlank {c : Char} (h : isBlank c = true) (cs : List Char) :
    trimEnd (cs ++ [c]) = trimEnd cs := by
  rw [trimEnd, trimEnd, List.reverse_append, List.reverse_singleton, List.singleton_append,
    trimStart_cons_of_isBlank h]

/-- Blanks around a text that has none do not count. -/
theorem trimChars_padded {cs : List Char} (h : trimChars cs = cs) : trimChars (' ' :: (cs ++ [' '])) = cs := by
  have hblank : isBlank ' ' = true := by decide
  obtain ⟨hstart, hend⟩ := trimChars_eq_self_iff.1 h
  rw [trimChars, trimStart_cons_of_isBlank hblank]
  cases cs with
  | nil => rfl
  | cons c cs =>
    have hhead : trimStart (c :: cs ++ [' ']) = c :: cs ++ [' '] := trimStart_eq_self_iff.2 hstart
    rw [hhead, trimEnd_concat_of_isBlank hblank, trimEnd_eq_self_iff.2 hend]

end Tabletop.Text
