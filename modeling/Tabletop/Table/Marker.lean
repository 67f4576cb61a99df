import Tabletop.Text.Blank
import Tabletop.Text.Split

/-! Formulas embedded in text, between backquotes and with `dice:` in front. -/
namespace Tabletop

namespace Text

theorem length_stripStart? {mark cs rest : List Char} (h : stripStart? mark cs = some rest) :
    mark.length + rest.length = cs.length := by
  induction mark generalizing cs with
  | nil => simp_all [stripStart?]
  | cons p ps ih =>
    cases cs with
    | nil => simp [stripStart?] at h
    | cons c cs =>
      simp only [stripStart?] at h
      split at h
      · have := ih h
        simp only [List.length_cons]
        omega
      · cases h

theorem length_splitFirst? {mark cs before after : List Char}
    (h : splitFirst? mark cs = some (before, after)) :
    before.length + mark.length + after.length = cs.length := by
  induction cs generalizing before with
  | nil =>
    simp only [splitFirst?, Option.map_eq_some_iff] at h
    obtain ⟨rest, hr, he⟩ := h
    cases he
    have := length_stripStart? hr
    simp_all
  | cons c cs ih =>
    simp only [splitFirst?] at h
    split at h
    · rename_i hs
      cases h
      have := length_stripStart? hs
      simp_all
    · simp only [Option.map_eq_some_iff] at h
      obtain ⟨⟨b, a⟩, hb, he⟩ := h
      obtain ⟨rfl, rfl⟩ : c :: b = before ∧ a = after := by simpa using he
      have := ih hb
      simp only [List.length_cons]
      omega

end Text

namespace Marker

def opening : List Char := '\x60' :: "dice:".toList

def closing : List Char := ['\x60']

/-- A text cut at its markers: what stands before each marker, the marker's formula, and what stands
behind the last one. -/
structure Cut where
  parts : List (List Char × List Char)
  tail : List Char
  deriving DecidableEq, Repr

/-- The first complete marker of a text: what stands before it, its formula, and what follows it. An
opening without a closing ends the search. -/
def first? (cs : List Char) : Option (List Char × List Char × List Char) := do
  let (before, rest) ← Text.splitFirst? opening cs
  let (formula, after) ← Text.splitFirst? closing rest
  return (before, formula, after)

theorem length_first? {cs before formula after : List Char}
    (h : first? cs = some (before, formula, after)) : after.length < cs.length := by
  simp only [first?, Option.bind_eq_bind, Option.bind_eq_some_iff] at h
  obtain ⟨⟨b, rest⟩, h₁, ⟨f, a⟩, h₂, h₃⟩ := h
  obtain ⟨rfl, rfl, rfl⟩ : b = before ∧ f = formula ∧ a = after := by simpa using h₃
  have h₁ : b.length + opening.length + rest.length = cs.length := Text.length_splitFirst? h₁
  have h₂ : f.length + closing.length + a.length = rest.length := Text.length_splitFirst? h₂
  simp only [opening, List.length_cons] at h₁
  omega

/-- Cuts at the markers from the left. -/
def cut (cs : List Char) : Cut :=
  match _h : first? cs with
  | none => ⟨[], cs⟩
  | some (before, formula, after) =>
    let rest := cut after
    ⟨(before, formula) :: rest.parts, rest.tail⟩
termination_by cs.length
decreasing_by exact length_first? (by assumption)

end Marker
end Tabletop
