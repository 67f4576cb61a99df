import Tabletop.Proofs.Notation.Scanning

/-! What a pattern matches, said of whole texts and without a direction. Derivatives find it out character by character:
the longest match that is found is one, and no longer start of the text is matched. -/
namespace Tabletop.Pattern

/-- The pattern matches all of a text. -/
inductive Matches : Pattern → List Char → Prop where
  | nothing : Matches nothing []
  | digit {c : Char} (h : Text.isDigit c = true) : Matches digit [c]
  | char (c : Char) : Matches (char c) [c]
  | seq {p q : Pattern} {v w : List Char} (hv : Matches p v) (hw : Matches q w) : Matches (seq p q) (v ++ w)
  | left {p q : Pattern} {w : List Char} (h : Matches p w) : Matches (either p q) w
  | right {p q : Pattern} {w : List Char} (h : Matches q w) : Matches (either p q) w
  | stop {p : Pattern} : Matches (many p) []
  | more {p : Pattern} {v w : List Char} (hv : Matches p v) (hw : Matches (many p) w) : Matches (many p) (v ++ w)

variable {p q : Pattern} {c : Char} {w : List Char}

@[simp] theorem not_matches_never : ¬ never.Matches w := nofun

@[simp] theorem matches_nothing : nothing.Matches w ↔ w = [] :=
  ⟨fun h => by cases h; rfl, fun h => h ▸ .nothing⟩

theorem matches_char {d : Char} : (char d).Matches w ↔ w = [d] :=
  ⟨fun h => by cases h; rfl, fun h => h ▸ .char d⟩

@[simp] theorem matches_either : (either p q).Matches w ↔ p.Matches w ∨ q.Matches w := by
  constructor
  · intro h
    cases h with
    | left h => exact .inl h
    | right h => exact .inr h
  · exact fun h => h.elim .left .right

theorem matches_seq : (seq p q).Matches w ↔ ∃ u v, w = u ++ v ∧ p.Matches u ∧ q.Matches v := by
  constructor
  · intro h
    cases h with
    | seq hu hv => exact ⟨_, _, rfl, hu, hv⟩
  · rintro ⟨u, v, rfl, hu, hv⟩
    exact .seq hu hv

theorem nullable_iff : p.nullable = true ↔ p.Matches [] := by
  induction p with
  | never => simp [nullable]
  | nothing => simp [nullable]
  | digit | char => exact ⟨nofun, nofun⟩
  | seq p q ihp ihq =>
    rw [nullable, Bool.and_eq_true, ihp, ihq, matches_seq]
    constructor
    · exact fun h => ⟨[], [], rfl, h⟩
    · rintro ⟨u, v, hw, hu, hv⟩
      obtain ⟨rfl, rfl⟩ := List.append_eq_nil_iff.1 hw.symm
      exact ⟨hu, hv⟩
  | either p q ihp ihq => rw [nullable, Bool.or_eq_true, ihp, ihq, matches_either]
  | many p => exact ⟨fun _ => .stop, fun _ => rfl⟩

@[simp] theorem matches_thenMatch : (thenMatch p q).Matches w ↔ (seq p q).Matches w := by
  have hnever : ∀ {p}, ¬ (seq p never).Matches w := fun h => by
    obtain ⟨_, _, _, _, hv⟩ := matches_seq.1 h
    cases hv
  unfold thenMatch
  split
  · simp [matches_seq]
  · simp [hnever]
  · simp [matches_seq]
  · rfl

@[simp] theorem matches_orMatch : (orMatch p q).Matches w ↔ p.Matches w ∨ q.Matches w := by
  unfold orMatch
  split <;> simp

/-- The first character belongs to the first part, unless that matches the empty text. -/
theorem matches_seq_cons : (seq p q).Matches (c :: w) ↔
    (∃ u v, w = u ++ v ∧ p.Matches (c :: u) ∧ q.Matches v) ∨ p.nullable = true ∧ q.Matches (c :: w) := by
  rw [matches_seq, nullable_iff]
  constructor
  · rintro ⟨u, v, hw, hu, hv⟩
    rcases List.cons_eq_append_iff.1 hw with ⟨rfl, rfl⟩ | ⟨u, rfl, rfl⟩
    · exact .inr ⟨hu, hv⟩
    · exact .inl ⟨u, v, rfl, hu, hv⟩
  · rintro (⟨u, v, rfl, hu, hv⟩ | ⟨hp, hq⟩)
    · exact ⟨c :: u, v, rfl, hu, hv⟩
    · exact ⟨[], c :: w, rfl, hp, hq⟩

/-- The first character belongs to the first repetition that matches more than the empty text. -/
theorem matches_many_cons : (many p).Matches (c :: w) ↔
    ∃ u v, w = u ++ v ∧ p.Matches (c :: u) ∧ (many p).Matches v := by
  constructor
  · intro h
    generalize hr : many p = r, hcs : c :: w = cs at h
    induction h with
    | more hu hv _ ih =>
      cases hr
      rcases List.cons_eq_append_iff.1 hcs with ⟨rfl, rfl⟩ | ⟨u, rfl, rfl⟩
      · exact ih rfl rfl
      · exact ⟨u, _, rfl, hu, hv⟩
    | stop => cases hcs
    | _ => cases hr
  · rintro ⟨u, v, rfl, hu, hv⟩
    exact Matches.more hu hv

theorem matches_derive : (p.derive c).Matches w ↔ p.Matches (c :: w) := by
  induction p generalizing w with
  | never | nothing => simp [derive]
  | digit =>
    rw [derive]
    split
    · rename_i hc
      exact ⟨fun h => matches_nothing.1 h ▸ .digit hc, fun h => by cases h; exact .nothing⟩
    · rename_i hc
      exact ⟨fun h => (not_matches_never h).elim, fun h => by cases h; contradiction⟩
  | char d =>
    rw [derive, matches_char]
    split
    · rename_i hc
      simp [hc]
    · rename_i hc
      simp [hc]
  | seq p q ihp ihq =>
    rw [derive, matches_seq_cons]
    cases hp : p.nullable <;> simp [matches_seq, ihp, ihq]
  | either p q ihp ihq => simp [derive, ihp, ihq]
  | many p ih => simp [derive, matches_many_cons, matches_seq, ih]

/-- A text is matched if nothing need follow it. -/
theorem matches_iff_foldl : p.Matches w ↔ (w.foldl (fun p c => p.derive c) p).nullable = true := by
  induction w generalizing p with
  | nil => exact nullable_iff.symm
  | cons c w ih => rw [List.foldl_cons, ← ih, matches_derive]

instance (p : Pattern) (w : List Char) : Decidable (p.Matches w) := decidable_of_iff _ matches_iff_foldl.symm

theorem longest?_nil (p : Pattern) : p.longest? [] = if p.nullable then some 0 else none := by
  cases p <;> rfl

theorem longest?_cons (p : Pattern) (c : Char) (cs : List Char) :
    p.longest? (c :: cs) =
      match (p.derive c).longest? cs with
      | some n => some (n + 1)
      | none => if p.nullable then some 0 else none := by
  cases p with
  | never => cases cs <;> rfl
  | _ => rfl

/-- What is found is a match and the longest one, and nothing is found only where nothing is. -/
theorem longest?_spec (p : Pattern) (cs : List Char) :
    match p.longest? cs with
    | some n => p.Matches (cs.take n) ∧ ∀ w, w <+: cs → p.Matches w → w.length ≤ n
    | none => ∀ w, w <+: cs → ¬ p.Matches w := by
  induction cs generalizing p with
  | nil =>
    rw [longest?_nil]
    by_cases hp : p.nullable = true
    · rw [if_pos hp]
      exact ⟨nullable_iff.1 hp, fun w hw _ => List.prefix_nil.1 hw ▸ Nat.le_refl 0⟩
    · rw [if_neg hp]
      exact fun w hw hm => hp (nullable_iff.2 (List.prefix_nil.1 hw ▸ hm))
  | cons c cs ih =>
    rw [longest?_cons]
    have hrest := ih (p.derive c)
    cases hn : (p.derive c).longest? cs with
    | some n =>
      rw [hn] at hrest
      refine ⟨matches_derive.1 hrest.1, fun w hw hm => ?_⟩
      rcases List.prefix_cons_iff.1 hw with rfl | ⟨v, rfl, hv⟩
      · exact Nat.zero_le _
      · exact Nat.succ_le_succ (hrest.2 v hv (matches_derive.2 hm))
    | none =>
      rw [hn] at hrest
      -- Only the empty start is left.
      have hempty : ∀ w, w <+: c :: cs → p.Matches w → w = [] := fun w hw hm => by
        rcases List.prefix_cons_iff.1 hw with rfl | ⟨v, rfl, hv⟩
        · rfl
        · exact absurd (matches_derive.2 hm) (hrest v hv)
      by_cases hp : p.nullable = true
      · dsimp only
        rw [if_pos hp]
        exact ⟨nullable_iff.1 hp, fun w hw hm => hempty w hw hm ▸ Nat.le_refl 0⟩
      · dsimp only
        rw [if_neg hp]
        exact fun w hw hm => hp (nullable_iff.2 (hempty w hw hm ▸ hm))

theorem matches_of_longest? {cs : List Char} {n : Nat} (h : p.longest? cs = some n) : p.Matches (cs.take n) := by
  have hspec := p.longest?_spec cs
  rw [h] at hspec
  exact hspec.1

/-- Where a start of the text matches, one at least as long is found. -/
theorem exists_longest? {cs : List Char} (hw : w <+: cs) (h : p.Matches w) :
    ∃ n, p.longest? cs = some n ∧ w.length ≤ n := by
  have hspec := p.longest?_spec cs
  cases hn : p.longest? cs with
  | none =>
    rw [hn] at hspec
    exact absurd h (hspec w hw)
  | some n =>
    rw [hn] at hspec
    exact ⟨n, rfl, hspec.2 w hw h⟩

/-- What some match goes on from could be the start of a match. -/
theorem length_le_viable {v cs : List Char} (h : p.Matches (w ++ v)) (hw : w <+: cs) : w.length ≤ p.viable cs := by
  induction w generalizing p cs with
  | nil => exact Nat.zero_le _
  | cons c w ih =>
    obtain ⟨rest, rfl⟩ := hw
    have hderive : (p.derive c).Matches (w ++ v) := matches_derive.2 h
    have hnever : p.derive c ≠ never := fun hc => not_matches_never (hc ▸ hderive)
    rw [List.cons_append, viable, if_neg hnever]
    exact Nat.succ_le_succ (ih hderive (List.prefix_append w rest))

end Tabletop.Pattern
