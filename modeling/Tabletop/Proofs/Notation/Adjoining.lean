import Tabletop.Proofs.Notation.Tiling

/-! Lexemes written next to each other. Dice, conditions and modifiers with a count need no blanks between them:
whatever conditions and modifiers stand behind one, it is cut off as the lexeme that it is by itself. -/
namespace Tabletop

namespace Pattern
variable {p : Pattern} {w : List Char}

theorem matches_anyOf {ps : List Pattern} : (anyOf ps).Matches w ↔ ∃ p ∈ ps, p.Matches w := by
  induction ps using anyOf.induct with
  | case1 => simp [anyOf]
  | case2 p => simp [anyOf]
  | case3 p ps hps ih => simp [anyOf, ih]

theorem matches_many_of_forall (h : ∀ c ∈ w, p.Matches [c]) : (many p).Matches w := by
  induction w with
  | nil => exact .stop
  | cons c w ih => exact .more (h c List.mem_cons_self) (ih fun d hd => h d (List.mem_cons_of_mem c hd))

theorem matches_digits (hne : w ≠ []) (h : ∀ c ∈ w, Text.isDigit c = true) : digits.Matches w := by
  cases w with
  | nil => exact absurd rfl hne
  | cons c w =>
    have hrest : (many digit).Matches w := matches_many_of_forall fun d hd => .digit (h d (List.mem_cons_of_mem c hd))
    exact .seq (.digit (h c List.mem_cons_self)) hrest

private theorem longest?_le_length {cs : List Char} {n : Nat} (h : p.longest? cs = some n) : n ≤ cs.length := by
  induction cs generalizing p n with
  | nil =>
    rw [longest?_nil] at h
    split at h <;> cases h
    exact Nat.le_refl 0
  | cons c cs ih =>
    rw [longest?_cons] at h
    cases hn : (p.derive c).longest? cs with
    | some m =>
      rw [hn] at h
      cases h
      exact Nat.succ_le_succ (ih hn)
    | none =>
      rw [hn] at h
      dsimp only at h
      split at h <;> cases h
      exact Nat.zero_le _

end Pattern

namespace LexemeRule
open Pattern

/-- What conditions and modifiers start with. -/
def marks : List Char := ['=', '!', '<', '>', '-', 'k', 'r']

/-- What they are made of, besides digits. -/
def inner : List Char := marks ++ ['h', 'l']

/-- Dice, conditions, and modifiers with a count. -/
def piece : Pattern :=
  anyOf (either plainDice rangeDice :: conditional ::
    ["kh", "kl", "!", "!!", "r"].map fun name => seq (word name) digits)

/-- A mark and what conditions and modifiers are made of. -/
def behindPiece : Pattern := seq (anyOf (marks.map char)) (many (anyOf (digit :: inner.map char)))

/-- Nothing is a lexeme that goes on from a piece into what is behind it. -/
theorem apart_piece : ∀ p ∈ declared, apart p (seq piece behindPiece) = true := by decide +kernel

/-- A text of conditions and modifiers, as far as it matters to what is in front of it. -/
structure Continues (cs : List Char) : Prop where
  head : ∀ c ∈ cs.head?, c ∈ marks
  all : ∀ c ∈ cs, Text.isDigit c = true ∨ c ∈ inner

instance (cs : List Char) : Decidable (Continues cs) :=
  decidable_of_iff ((cs.head?.all (· ∈ marks) && cs.all fun c => Text.isDigit c || c ∈ inner) = true) <| by
    simp only [Bool.and_eq_true, Option.all_eq_true, List.all_eq_true, Bool.or_eq_true, decide_eq_true_eq]
    exact ⟨fun h => ⟨h.1, h.2⟩, fun h => ⟨h.head, h.all⟩⟩

namespace Continues
variable {cs ds : List Char}

private theorem nil : Continues [] := ⟨nofun, nofun⟩

private theorem append (hc : Continues cs) (hd : Continues ds) : Continues (cs ++ ds) where
  head := by
    cases cs with
    | nil => exact hd.head
    | cons c cs => exact hc.head
  all c h := (List.mem_append.1 h).elim (hc.all c) (hd.all c)

theorem append_inner (hc : Continues cs) (hne : cs ≠ []) (hd : ∀ c ∈ ds, Text.isDigit c = true ∨ c ∈ inner) :
    Continues (cs ++ ds) where
  head := by
    rw [List.head?_append_of_ne_nil cs hne]
    exact hc.head
  all c h := (List.mem_append.1 h).elim (hc.all c) (hd c)

private theorem flatMap {α : Type} {f : α → List Char} {as : List α} (h : ∀ a ∈ as, Continues (f a)) :
    Continues (as.flatMap f) := by
  induction as with
  | nil => exact .nil
  | cons a as ih => exact (h a List.mem_cons_self).append (ih fun b hb => h b (List.mem_cons_of_mem a hb))

private theorem left (h : Continues (cs ++ ds)) : Continues cs where
  head c hc := h.head c (by rw [List.head?_append, hc]; rfl)
  all c hc := h.all c (List.mem_append_left ds hc)

private theorem matches_behindPiece (h : Continues cs) (hne : cs ≠ []) : behindPiece.Matches cs := by
  cases cs with
  | nil => exact absurd rfl hne
  | cons c cs =>
    have hmark : (anyOf (marks.map char)).Matches [c] :=
      matches_anyOf.2 ⟨.char c, List.mem_map_of_mem (h.head c rfl), .char c⟩
    have hrest : (many (anyOf (digit :: inner.map char))).Matches cs := by
      refine matches_many_of_forall fun d hd => matches_anyOf.2 ?_
      rcases h.all d (List.mem_cons_of_mem c hd) with hdigit | hinner
      · exact ⟨digit, List.mem_cons_self, .digit hdigit⟩
      · exact ⟨.char d, List.mem_cons_of_mem _ (List.mem_map_of_mem hinner), .char d⟩
    exact .seq hmark hrest

theorem not_mem_openBracket (h : Continues cs) : '[' ∉ cs := fun hc =>
  (h.all _ hc).elim (absurd · (by decide)) (absurd · (by decide))

end Continues

/-- No match of a pattern is longer than a piece. -/
theorem length_le_of_piece {w rest : List Char} (hw : piece.Matches w) (hrest : Continues rest) {p : Pattern}
    (hp : p ∈ declared) {v : List Char} (hv : v <+: w ++ rest) (hm : p.Matches v) : v.length ≤ w.length := by
  by_contra hlonger
  obtain ⟨u, rfl⟩ : w <+: v :=
    List.prefix_of_prefix_length_le (List.prefix_append w rest) hv (Nat.le_of_not_le hlonger)
  have hne : u ≠ [] := by
    rintro rfl
    simp at hlonger
  obtain ⟨after, hafter⟩ := (List.prefix_append_right_inj w).1 hv
  have hu : behindPiece.Matches u := (hafter ▸ hrest).left.matches_behindPiece hne
  exact not_both_of_apart (apart_piece p hp) hm (.seq hw hu)

/-- A text is matched by one rule at most. -/
theorem rule_unique {r s : LexemeRule} (hr : r ∈ all) (hs : s ∈ all) {w : List Char} (hrw : r.pattern.Matches w)
    (hsw : s.pattern.Matches w) : r = s := by
  have hapart : all.Pairwise fun r s => apart r.pattern s.pattern = true :=
    List.pairwise_map.1 (List.pairwise_cons.1 declared_apart).2
  obtain ⟨i, hi, rfl⟩ := List.getElem_of_mem hr
  obtain ⟨j, hj, rfl⟩ := List.getElem_of_mem hs
  rcases Nat.lt_trichotomy i j with hij | rfl | hji
  · exact absurd hsw (not_both_of_apart (List.pairwise_iff_getElem.1 hapart i j hi hj hij) hrw)
  · rfl
  · exact absurd hrw (not_both_of_apart (List.pairwise_iff_getElem.1 hapart j i hj hi hji) hsw)

/-- A range is opened by a bracket. -/
theorem rangeOpening_longest? {cs : List Char} (h : '[' ∉ cs) : rangeOpening.longest? cs = none := by
  cases hn : rangeOpening.longest? cs with
  | none => rfl
  | some n =>
    obtain ⟨letter, hopening⟩ : ∃ letter, rangeOpening = seq (many digit) (seq letter (char '[')) := ⟨_, rfl⟩
    have hm := matches_of_longest? hn
    rw [hopening, matches_seq] at hm
    obtain ⟨count, w, hw, -, hm⟩ := hm
    obtain ⟨x, bracket, rfl, -, hbracket⟩ := matches_seq.1 hm
    rw [matches_char] at hbracket
    have hmem : '[' ∈ cs.take n := by simp [hw, hbracket]
    exact absurd (List.mem_of_mem_take hmem) h

end LexemeRule

namespace Lexeme
open LexemeRule

/-- What the start of a text is cut off as, wherever it could be cut off so. -/
theorem first_of_cut {l : Lexeme} {w rest : List Char} (h : Cut l w rest) (hl : l ≠ .invalid)
    (hrange : '[' ∈ w ++ rest → rangeDice.Matches w) : first (w ++ rest) = (l, w.length) := by
  obtain ⟨rule, hrule, hm, hread, hmax⟩ := h hl
  obtain ⟨m, hm', hle⟩ := Pattern.exists_longest? (List.prefix_append w rest) hm
  obtain ⟨⟨found, n⟩, hfound, hbest⟩ := exists_longestOf hrule hm'
  obtain ⟨hmem, hlongest⟩ := longestOf_eq_some hfound
  have hmatch := Pattern.matches_of_longest? hlongest
  have hend : n ≤ w.length := by
    have htaken := hmax _ (List.mem_cons_of_mem _ (List.mem_map_of_mem hmem)) _ (List.take_prefix n _) hmatch
    rwa [List.length_take, Nat.min_eq_left (Pattern.longest?_le_length hlongest)] at htaken
  obtain rfl : n = w.length := Nat.le_antisymm hend (Nat.le_trans hle hbest)
  rw [List.take_left] at hmatch
  obtain rfl := rule_unique hrule hmem hm hmatch
  have hopened : ((rangeOpening.longest? (w ++ rest)).isSome && (rangeDice.longest? (w ++ rest)).isNone) = false := by
    by_cases hbracket : '[' ∈ w ++ rest
    · obtain ⟨k, hk, -⟩ := Pattern.exists_longest? (List.prefix_append w rest) (hrange hbracket)
      rw [hk, Option.isNone_some, Bool.and_false]
    · rw [rangeOpening_longest? hbracket, Option.isSome_none, Bool.false_and]
  rw [first, hopened, if_neg Bool.false_ne_true, LexemeRule.longest?, hfound]
  dsimp only
  rw [List.take_left, hread, Option.getD_some]

/-- A piece of text and the lexeme that it is by itself. -/
structure Piece (w : List Char) (l : Lexeme) : Prop where
  shape : piece.Matches w
  rule : ∃ r ∈ all, r.pattern.Matches w ∧ r.read? w = some l
  valid : l ≠ .invalid
  range : '[' ∈ w → rangeDice.Matches w

namespace Piece
variable {l : Lexeme} {w rest : List Char}

private theorem first_append (h : Piece w l) (hrest : Continues rest) : first (w ++ rest) = (l, w.length) := by
  refine first_of_cut (fun _ => ?_) h.valid fun hbracket => ?_
  · obtain ⟨r, hr, hm, hread⟩ := h.rule
    exact ⟨r, hr, hm, hread, fun p hp v => length_le_of_piece h.shape hrest hp⟩
  · exact h.range ((List.mem_append.1 hbracket).resolve_right hrest.not_mem_openBracket)

/-- A piece starts with neither white space nor anything else between lexemes. -/
theorem exists_cons (h : Piece w l) : ∃ c cs, w = c :: cs ∧ isGap c = false := by
  cases w with
  | nil => exact absurd (Pattern.nullable_iff.2 h.shape) (by decide)
  | cons c cs =>
    refine ⟨c, cs, rfl, Bool.not_eq_true _ ▸ fun hgap => ?_⟩
    have hderive : piece.derive c = Pattern.never := by
      simp only [isGap, Bool.or_eq_true, beq_iff_eq] at hgap
      rcases hgap with ((rfl | rfl) | rfl) | rfl <;> decide
    exact Pattern.not_matches_never (hderive ▸ Pattern.matches_derive.2 h.shape)

private theorem scanFrom_append (h : Piece w l) (hrest : Continues rest) (pos : Nat) :
    scanFrom 0 pos (w ++ rest) =
      ⟨l, ⟨pos, pos + Text.byteLength w⟩⟩ :: scanFrom 0 (pos + Text.byteLength w) rest := by
  have hfirst := h.first_append hrest
  obtain ⟨c, cs, rfl, hc⟩ := h.exists_cons
  have hscan := scanFrom_cons hc pos (cs ++ rest)
  rw [← List.cons_append] at hscan
  simpa only [placedAt, hfirst, List.take_left, List.drop_left] using hscan

end Piece

/-- Pieces one behind the other are as many lexemes. -/
theorem map_lexeme_scanFrom {ps : List (List Char × Lexeme)} (h : ∀ p ∈ ps, Piece p.1 p.2)
    (hrest : ∀ p ∈ ps.tail, Continues p.1) (pos : Nat) :
    (scanFrom 0 pos (ps.flatMap Prod.fst)).map (·.lexeme) = ps.map Prod.snd := by
  induction ps generalizing pos with
  | nil => rfl
  | cons p ps ih =>
    have hscan := (h p List.mem_cons_self).scanFrom_append (Continues.flatMap hrest) pos
    rw [List.tail_cons] at hscan
    rw [List.flatMap_cons, hscan, List.map_cons, List.map_cons,
      ih (fun q hq => h q (List.mem_cons_of_mem p hq)) fun q hq => hrest q (List.mem_of_mem_tail hq)]

end Lexeme
end Tabletop
