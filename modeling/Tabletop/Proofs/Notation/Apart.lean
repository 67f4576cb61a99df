import Tabletop.Proofs.Notation.Matching

/-! Patterns that have no text in common. Two patterns are derived side by side, by every letter that could matter,
until nothing new turns up. If no two that were met match the empty text, no text is matched by both. -/
namespace Tabletop
namespace Pattern
variable {p q : Pattern} {c d : Char}

/-- Characters that are all digits or none, and that stand in a pattern by themselves nowhere, are alike to it. -/
theorem derive_congr (hd : Text.isDigit c = Text.isDigit d) (hcp : c ∉ p.chars) (hdp : d ∉ p.chars) :
    p.derive c = p.derive d := by
  induction p with
  | never | nothing => rfl
  | digit => simp [derive, hd]
  | char x =>
    have hc : c ≠ x := fun h => hcp (h ▸ List.mem_singleton_self c)
    have hd : d ≠ x := fun h => hdp (h ▸ List.mem_singleton_self d)
    simp [derive, hc, hd]
  | seq p q ihp ihq | either p q ihp ihq =>
    simp only [chars, List.mem_append, not_or] at hcp hdp
    simp [derive, ihp hcp.1 hdp.1, ihq hcp.2 hdp.2]
  | many p ih => simp [derive, ih hcp hdp]

/-- The characters that two patterns tell apart, with one digit for all others. -/
def letters (pq : Pattern × Pattern) : List Char := '0' :: (pq.1.chars ++ pq.2.chars)

/-- Two patterns behind each letter that both go on from. -/
def behind (pq : Pattern × Pattern) : List (Pattern × Pattern) :=
  ((letters pq).map fun c => (pq.1.derive c, pq.2.derive c)).filter fun r => r.1 ≠ never && r.2 ≠ never

/-- No two of the pairs match the empty text, and what is behind one is among them. -/
def Closed (rs : List (Pattern × Pattern)) : Prop :=
  ∀ r ∈ rs, (r.1.nullable && r.2.nullable) = false ∧ '0' ∉ r.1.chars ++ r.2.chars ∧ ∀ t ∈ behind r, t ∈ rs

instance (rs : List (Pattern × Pattern)) : Decidable (Closed rs) := inferInstanceAs (Decidable (∀ r ∈ rs, _))

/-- Every character that both patterns go on from does to them what some letter does. -/
theorem derive_mem_behind {r : Pattern × Pattern} (hzero : '0' ∉ r.1.chars ++ r.2.chars) (c : Char)
    (hp : r.1.derive c ≠ never) (hq : r.2.derive c ≠ never) : (r.1.derive c, r.2.derive c) ∈ behind r := by
  have hletter : ∃ d ∈ letters r, r.1.derive c = r.1.derive d ∧ r.2.derive c = r.2.derive d := by
    by_cases hc : c ∈ r.1.chars ++ r.2.chars
    · exact ⟨c, List.mem_cons_of_mem _ hc, rfl, rfl⟩
    · obtain ⟨hcp, hcq⟩ := not_or.1 (mt List.mem_append.2 hc)
      obtain ⟨hzp, hzq⟩ := not_or.1 (mt List.mem_append.2 hzero)
      cases hd : Text.isDigit c with
      | false => exact absurd (derive_eq_never hd hcp) hp
      | true => exact ⟨'0', List.mem_cons_self, derive_congr hd hcp hzp, derive_congr hd hcq hzq⟩
  obtain ⟨d, hd, hpd, hqd⟩ := hletter
  rw [behind, List.mem_filter]
  refine ⟨List.mem_map.2 ⟨d, hd, by rw [hpd, hqd]⟩, ?_⟩
  simp [hp, hq]

/-- No text is matched by both of a pair. -/
theorem Closed.not_both {rs : List (Pattern × Pattern)} (h : Closed rs) {r : Pattern × Pattern} (hr : r ∈ rs)
    {w : List Char} (hp : r.1.Matches w) (hq : r.2.Matches w) : False := by
  induction w generalizing r with
  | nil =>
    have hnil := (h r hr).1
    rw [nullable_iff.2 hp, nullable_iff.2 hq] at hnil
    cases hnil
  | cons c w ih =>
    obtain ⟨-, hzero, hbehind⟩ := h r hr
    have hp' := matches_derive.2 hp
    have hq' := matches_derive.2 hq
    have hmem := derive_mem_behind hzero c (fun hc => not_matches_never (hc ▸ hp'))
      fun hc => not_matches_never (hc ▸ hq')
    exact ih (hbehind _ hmem) hp' hq'

/-- The pairs met in so many steps, those already seen included. -/
def explore : (steps : Nat) → (seen todo : List (Pattern × Pattern)) → List (Pattern × Pattern)
  | 0, seen, _ | _, seen, [] => seen
  | n + 1, seen, r :: todo =>
    if r ∈ seen then explore n seen todo else explore n (r :: seen) (behind r ++ todo)

/-- The search for a text that both patterns match comes to an end without one. -/
def apart (p q : Pattern) : Bool :=
  let met := explore 64 [] [(p, q)]
  (p, q) ∈ met && Closed met

theorem not_both_of_apart (h : apart p q = true) {w : List Char} (hp : p.Matches w) : ¬ q.Matches w := by
  obtain ⟨hmem, hclosed⟩ := Bool.and_eq_true_iff.1 h
  exact fun hq => (of_decide_eq_true hclosed).not_both (of_decide_eq_true hmem) hp hq

/-- The white space between lexemes. -/
def blanks : Pattern := many1 (anyOf [char ' ', char '\t', char '\r', char '\n'])

end Pattern

namespace LexemeRule
open Pattern

/-- Every pattern that a text is cut by, that of white space included. -/
def declared : List Pattern := blanks :: all.map LexemeRule.pattern

/-- No text is matched by two of the patterns. -/
theorem declared_apart : declared.Pairwise fun p q => apart p q = true := by decide +kernel

end LexemeRule
end Tabletop
