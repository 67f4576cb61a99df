import Mathlib.Data.List.DropRight
import Tabletop.Notation.Lexeme
import Tabletop.Proofs.Text.Digits

/-! Where lexemes come from: each is what `first` finds at some character of the text that is no gap. A
lexeme that means something stands for at least one byte, and white space means nothing. -/
namespace Tabletop

namespace Pattern

theorem longest?_pos {p : Pattern} {cs : List Char} {n : Nat} (hp : p.nullable = false)
    (h : p.longest? cs = some n) : 0 < n := by
  cases p with
  | never => simp [longest?] at h
  | _ =>
    cases cs with
    | nil => simp [longest?, hp] at h
    | cons c cs =>
      simp only [longest?, hp] at h
      split at h
      · cases h
        exact Nat.succ_pos _
      · cases h

/-- The characters that stand in a pattern by themselves. -/
def chars : Pattern → List Char
  | char c => [c]
  | seq p q | either p q => p.chars ++ q.chars
  | many p => p.chars
  | _ => []

theorem derive_eq_never {p : Pattern} {c : Char} (hd : Text.isDigit c = false) (hc : c ∉ p.chars) :
    p.derive c = never := by
  induction p with
  | never | nothing => rfl
  | digit => simp [derive, hd]
  | char d => simpa [derive, chars] using hc
  | seq p q ihp ihq =>
    obtain ⟨hp, hq⟩ := not_or.1 (mt List.mem_append.2 hc)
    simp [derive, ihp hp, ihq hq, thenMatch, orMatch]
  | either p q ihp ihq =>
    obtain ⟨hp, hq⟩ := not_or.1 (mt List.mem_append.2 hc)
    simp [derive, ihp hp, ihq hq, orMatch]
  | many p ih => simp [derive, ih hc, thenMatch]

private theorem longest?_cons_eq_none {p : Pattern} {c : Char} (cs : List Char) (hp : p.nullable = false)
    (hc : p.derive c = never) : p.longest? (c :: cs) = none := by
  cases p with
  | never => rfl
  | _ => simp [longest?, hc, hp]

end Pattern

namespace LexemeRule

theorem nullable_eq_false : ∀ r ∈ all, r.pattern.nullable = false := by decide

theorem longestOf_eq_some {cs : List Char} {rules : List LexemeRule} {r : LexemeRule} {n : Nat}
    (h : longest?.longestOf cs rules = some (r, n)) : r ∈ rules ∧ r.pattern.longest? cs = some n := by
  induction rules generalizing r n with
  | nil => cases h
  | cons rule rules ih =>
    cases hm : rule.pattern.longest? cs with
    | none =>
      simp only [longest?.longestOf, hm] at h
      exact ⟨List.mem_cons_of_mem _ (ih h).1, (ih h).2⟩
    | some m =>
      cases hrest : longest?.longestOf cs rules with
      | none =>
        simp only [longest?.longestOf, hm, hrest] at h
        cases h
        exact ⟨List.mem_cons_self, hm⟩
      | some found =>
        obtain ⟨other, k⟩ := found
        simp only [longest?.longestOf, hm, hrest] at h
        split at h
        · cases h
          exact ⟨List.mem_cons_of_mem _ (ih hrest).1, (ih hrest).2⟩
        · cases h
          exact ⟨List.mem_cons_self, hm⟩

private theorem longestOf_eq_none {cs : List Char} {rules : List LexemeRule}
    (h : ∀ r ∈ rules, r.pattern.longest? cs = none) : longest?.longestOf cs rules = none := by
  induction rules with
  | nil => rfl
  | cons rule rules ih =>
    have hrest := ih fun r hr => h r (List.mem_cons_of_mem _ hr)
    simp only [longest?.longestOf, h rule List.mem_cons_self, hrest]

/-- White space but the space stands in no pattern. -/
theorem isBlank_chars : ∀ r ∈ all, ∀ c ∈ r.pattern.chars, Text.isBlank c = true → c = ' ' := by
  have hall : (all.flatMap (·.pattern.chars)).all (fun c => !Text.isBlank c || c == ' ') = true := by decide
  intro r hr c hc hb
  have hcheck := List.all_eq_true.1 hall c (List.mem_flatMap.2 ⟨r, hr, hc⟩)
  simpa [hb] using hcheck

end LexemeRule

namespace Lexeme

/-- No pattern starts at white space that is no gap. -/
theorem first_of_isBlank {c : Char} (cs : List Char) (hb : Text.isBlank c = true) (hg : isGap c = false) :
    (first (c :: cs)).1 = .invalid := by
  have hstart : ∀ r ∈ LexemeRule.all, r.pattern.longest? (c :: cs) = none := fun r hr => by
    refine Pattern.longest?_cons_eq_none cs (LexemeRule.nullable_eq_false r hr) ?_
    refine Pattern.derive_eq_never (Text.isDigit_eq_false_of_isBlank hb) fun hc => ?_
    rw [LexemeRule.isBlank_chars r hr c hc hb] at hg
    exact absurd hg (by decide)
  have hnone : LexemeRule.longest? (c :: cs) = none := LexemeRule.longestOf_eq_none hstart
  simp only [first, hnone]
  split <;> rfl

private theorem first_pos {cs : List Char} (h : (first cs).1 ≠ .invalid) : 0 < (first cs).2 := by
  unfold first at h ⊢
  split at h
  · exact absurd rfl h
  · rename_i hrange
    rw [if_neg hrange]
    cases hm : LexemeRule.longest? cs with
    | none =>
      rw [hm] at h
      exact absurd rfl h
    | some found =>
      obtain ⟨hr, hn⟩ := LexemeRule.longestOf_eq_some hm
      exact Pattern.longest?_pos (LexemeRule.nullable_eq_false _ hr) hn

/-- What `first` finds at a character, as it is placed. -/
def placedAt (pos : Nat) (cs : List Char) : Placed :=
  ⟨(first cs).1, ⟨pos, pos + Text.byteLength (cs.take (first cs).2)⟩⟩

private theorem exists_placedAt {skip pos : Nat} {cs : List Char} {l : Placed} (h : l ∈ scanFrom skip pos cs) :
    ∃ at_ c rest, c :: rest <:+ cs ∧ isGap c = false ∧ l = placedAt at_ (c :: rest) := by
  induction cs generalizing skip pos with
  | nil => cases skip <;> cases h
  | cons c cs ih =>
    have deeper {skip pos : Nat} (h : l ∈ scanFrom skip pos cs) :
        ∃ at_ d rest, d :: rest <:+ c :: cs ∧ isGap d = false ∧ l = placedAt at_ (d :: rest) := by
      obtain ⟨at_, d, rest, hsuffix, hd, hl⟩ := ih h
      exact ⟨at_, d, rest, hsuffix.trans (List.suffix_cons c cs), hd, hl⟩
    cases skip with
    | succ skip => exact deeper h
    | zero =>
      rw [scanFrom] at h
      split at h
      · exact deeper h
      · rename_i hc
        rcases List.mem_cons.1 h with rfl | h
        · exact ⟨pos, c, cs, List.suffix_rfl, by simpa using hc, rfl⟩
        · exact deeper h

theorem scan_eq_invalid {s : String} (h : ∀ c ∈ s.toList, Text.isBlank c = true) {l : Placed}
    (hl : l ∈ scan s) : l.lexeme = .invalid := by
  obtain ⟨at_, c, rest, hsuffix, hc, rfl⟩ := exists_placedAt hl
  exact first_of_isBlank rest (h c (hsuffix.subset List.mem_cons_self)) hc

theorem byteLength_pos {cs : List Char} (h : cs ≠ []) : 0 < Text.byteLength cs := by
  cases cs with
  | nil => exact absurd rfl h
  | cons c cs => exact Nat.lt_of_lt_of_le c.utf8Size_pos (Nat.le_add_right _ _)

theorem scan_span_nonempty {s : String} {l : Placed} (hl : l ∈ scan s) (h : l.lexeme ≠ .invalid) :
    l.span.isEmpty = false := by
  obtain ⟨at_, c, rest, -, -, rfl⟩ := exists_placedAt hl
  have hpos := first_pos h
  have hbytes : 0 < Text.byteLength ((c :: rest).take (first (c :: rest)).2) := byteLength_pos (by simp; omega)
  exact decide_eq_false (Nat.not_le_of_lt (Nat.lt_add_of_pos_right hbytes))

end Lexeme

namespace Text

theorem isBlank_of_trimChars_eq_nil {cs : List Char} (h : trimChars cs = []) : ∀ c ∈ cs, isBlank c = true := by
  have hstart : (trimStart cs).dropWhile isBlank = trimStart cs := List.dropWhile_idempotent isBlank cs
  rw [trimChars, trimEnd, List.reverse_eq_nil_iff, trimStart, List.dropWhile_eq_nil_iff] at h
  have hnil : trimStart cs = [] := by
    rw [← hstart, List.dropWhile_eq_nil_iff]
    exact fun c hc => h c (List.mem_reverse.2 hc)
  exact List.dropWhile_eq_nil_iff.1 hnil

end Text
end Tabletop
