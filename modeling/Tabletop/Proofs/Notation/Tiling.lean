import Tabletop.Proofs.Notation.Apart

/-! A text cut into lexemes. The lexemes lie one behind the other with nothing but white space between them, and each
that means something is the longest match of all the patterns where it begins. -/
namespace Tabletop

namespace Text

theorem byteLength_append (cs ds : List Char) : byteLength (cs ++ ds) = byteLength cs + byteLength ds := by
  induction cs with
  | nil => exact (Nat.zero_add _).symm
  | cons c cs ih => rw [List.cons_append, byteLength, byteLength, ih, Nat.add_assoc]

theorem dropBytes?_append (cs ds : List Char) : dropBytes? (byteLength cs) (cs ++ ds) = some ds := by
  induction cs with
  | nil => cases ds <;> rfl
  | cons c cs ih =>
    obtain ⟨n, hn⟩ := Nat.exists_eq_succ_of_ne_zero (Lexeme.byteLength_pos (List.cons_ne_nil c cs)).ne'
    have hsum : n + 1 = c.utf8Size + byteLength cs := hn.symm
    rw [hn, List.cons_append, dropBytes?, if_pos (by omega), show n + 1 - c.utf8Size = byteLength cs by omega, ih]

private theorem takeBytes?_append (cs ds : List Char) : takeBytes? (byteLength cs) (cs ++ ds) = some cs := by
  induction cs with
  | nil => cases ds <;> rfl
  | cons c cs ih =>
    obtain ⟨n, hn⟩ := Nat.exists_eq_succ_of_ne_zero (Lexeme.byteLength_pos (List.cons_ne_nil c cs)).ne'
    have hsum : n + 1 = c.utf8Size + byteLength cs := hn.symm
    rw [hn, List.cons_append, takeBytes?, if_pos (by omega), show n + 1 - c.utf8Size = byteLength cs by omega, ih,
      Option.map_some]

/-- Where a text stands behind another, both counted from byte `pos`. -/
def Span.behind (pos : Nat) (before w : List Char) : Span :=
  ⟨pos + byteLength before, pos + byteLength before + byteLength w⟩

theorem slice?_behind (before w after : List Char) : slice? (before ++ w ++ after) (.behind 0 before w) = some w := by
  rw [slice?, Span.behind, if_pos (Nat.le_add_right _ _), List.append_assoc, Nat.zero_add, dropBytes?_append,
    Option.bind_some, Nat.add_sub_cancel_left, takeBytes?_append]

end Text

namespace LexemeRule
open Pattern

/-- White space matches no pattern but its own. -/
theorem isGap_of_blanks {c : Char} {w : List Char} (h : blanks.Matches (c :: w)) : Lexeme.isGap c = true := by
  have hderive : blanks.derive c ≠ never := fun hc => not_matches_never (hc ▸ matches_derive.2 h)
  by_contra hgap
  refine hderive ?_
  simp only [Lexeme.isGap, Bool.or_eq_true, beq_iff_eq, not_or] at hgap
  simp [blanks, many1, anyOf, derive, thenMatch, orMatch, nullable, hgap]

/-- Any match of a rule is at most as long as the one that is chosen. -/
theorem exists_longestOf {cs : List Char} {rules : List LexemeRule} {r : LexemeRule} {m : Nat} (hr : r ∈ rules)
    (hm : r.pattern.longest? cs = some m) :
    ∃ found, longest?.longestOf cs rules = some found ∧ m ≤ found.2 := by
  induction rules with
  | nil => cases hr
  | cons rule rules ih =>
    rcases List.mem_cons.1 hr with rfl | hr
    · simp only [longest?.longestOf, hm]
      cases longest?.longestOf cs rules with
      | none => exact ⟨_, rfl, Nat.le_refl m⟩
      | some found =>
        dsimp only
        split
        · rename_i hlt
          exact ⟨_, rfl, Nat.le_of_lt hlt⟩
        · exact ⟨_, rfl, Nat.le_refl m⟩
    · obtain ⟨found, hfound, hle⟩ := ih hr
      simp only [longest?.longestOf, hfound]
      cases rule.pattern.longest? cs with
      | none => exact ⟨found, rfl, hle⟩
      | some n =>
        dsimp only
        split
        · exact ⟨found, rfl, hle⟩
        · rename_i hlt
          exact ⟨_, rfl, Nat.le_trans hle (Nat.le_of_not_lt hlt)⟩

/-- The longest match is as long as any match of any pattern there is. -/
theorem length_le_of_longest? {c : Char} {cs : List Char} (hc : Lexeme.isGap c = false) {r : LexemeRule} {n : Nat}
    (h : longest? (c :: cs) = some (r, n)) {p : Pattern} (hp : p ∈ declared) {w : List Char} (hw : w <+: c :: cs)
    (hm : p.Matches w) : w.length ≤ n := by
  rcases List.mem_cons.1 hp with rfl | hp
  · rcases List.prefix_cons_iff.1 hw with rfl | ⟨v, rfl, -⟩
    · exact Nat.zero_le n
    · rw [isGap_of_blanks hm] at hc
      cases hc
  · obtain ⟨rule, hrule, rfl⟩ := List.mem_map.1 hp
    obtain ⟨m, hm, hle⟩ := exists_longest? hw hm
    obtain ⟨found, hfound, hbest⟩ := exists_longestOf hrule hm
    cases hfound.symm.trans h
    exact Nat.le_trans hle hbest

/-- Where a range is opened, the whole opening could be the start of a range. -/
theorem exists_mem_take_viable {cs : List Char} (h : (rangeOpening.longest? cs).isSome = true) :
    ∃ c ∈ cs.take (rangeDice.viable cs), c ≠ '-' := by
  obtain ⟨n, hn⟩ := Option.isSome_iff_exists.1 h
  obtain ⟨letter, ends, hopening, hdice, hends⟩ :
      ∃ letter ends, rangeOpening = seq (many digit) (seq letter (char '[')) ∧
        rangeDice = seq (many digit) (seq letter (seq (char '[') ends)) ∧ ends.Matches ['0', ',', '0', ']'] :=
    ⟨_, _, rfl, rfl, by decide⟩
  have hm := matches_of_longest? hn
  rw [hopening, matches_seq] at hm
  obtain ⟨count, w, hw, hcount, hm⟩ := hm
  obtain ⟨x, bracket, rfl, hx, hbracket⟩ := matches_seq.1 hm
  rw [matches_char] at hbracket
  subst hbracket
  have hrange : rangeDice.Matches (cs.take n ++ ['0', ',', '0', ']']) := by
    rw [hw, hdice, List.append_assoc, List.append_assoc]
    exact .seq hcount (.seq hx (.seq (.char '[') hends))
  have hviable := length_le_viable hrange (List.take_prefix n cs)
  refine ⟨'[', ?_, by decide⟩
  have hmem : '[' ∈ cs.take n := by simp [hw]
  have hlength : (cs.take n).length ≤ (cs.take (rangeDice.viable cs)).length := by
    rw [List.length_take (i := rangeDice.viable cs)]
    exact Nat.le_min.2 ⟨hviable, (List.take_prefix n cs).length_le⟩
  exact (List.prefix_of_prefix_length_le (List.take_prefix n cs) (List.take_prefix _ cs) hlength).subset hmem

end LexemeRule

namespace Lexeme
open LexemeRule

/-- Every lexeme takes at least one character, those that mean nothing too. -/
theorem first_length_pos (c : Char) (cs : List Char) : 0 < (first (c :: cs)).2 := by
  unfold first
  dsimp only
  split
  · rename_i hrange
    obtain ⟨d, hd, hne⟩ := exists_mem_take_viable (Bool.and_eq_true_iff.1 hrange).1
    change 0 < (((c :: cs).take (rangeDice.viable (c :: cs))).reverse.dropWhile (· == '-')).length
    rw [List.length_pos_iff, ne_eq, List.dropWhile_eq_nil_iff]
    exact fun hall => hne (eq_of_beq (hall d (List.mem_reverse.2 hd)))
  · cases hm : LexemeRule.longest? (c :: cs) with
    | none => exact Nat.lt_of_lt_of_le Nat.one_pos (Nat.le_max_left _ _)
    | some found =>
      obtain ⟨hr, hn⟩ := longestOf_eq_some hm
      exact Pattern.longest?_pos (nullable_eq_false _ hr) hn

/-- A word at the start of a text is what a lexeme stands for: unless the lexeme is invalid, it is what a rule reads in
the word, the pattern of the rule matches the word, and no pattern matches a longer start. -/
def Cut (l : Lexeme) (w rest : List Char) : Prop :=
  l ≠ .invalid → ∃ rule ∈ all, rule.pattern.Matches w ∧ rule.read? w = some l ∧
    ∀ p ∈ declared, ∀ v, v <+: w ++ rest → p.Matches v → v.length ≤ w.length

private theorem cut_first {c : Char} (hc : isGap c = false) (cs : List Char) :
    Cut (first (c :: cs)).1 ((c :: cs).take (first (c :: cs)).2) ((c :: cs).drop (first (c :: cs)).2) := by
  unfold first
  dsimp only
  split
  · exact fun h => absurd rfl h
  · cases hm : LexemeRule.longest? (c :: cs) with
    | none => exact fun h => absurd rfl h
    | some found =>
      obtain ⟨rule, n⟩ := found
      intro hvalid
      obtain ⟨hr, hn⟩ := longestOf_eq_some hm
      refine ⟨rule, hr, Pattern.matches_of_longest? hn, ?_, fun p hp v hv hmatch => ?_⟩
      · dsimp only at hvalid ⊢
        cases hread : rule.read? ((c :: cs).take n) with
        | none => exact absurd (by rw [hread]; rfl) hvalid
        | some l => rfl
      · rw [List.take_append_drop] at hv
        rw [List.length_take]
        exact Nat.le_min.2 ⟨length_le_of_longest? hc hm hp hv hmatch, hv.length_le⟩

/-- Lexemes that tile a text from byte `pos` on. -/
inductive Tiles : (pos : Nat) → List Char → List Placed → Prop where
  | done (pos : Nat) : Tiles pos [] []
  | gap {pos : Nat} {c : Char} {cs : List Char} {ls : List Placed} (hc : isGap c = true)
      (h : Tiles (pos + c.utf8Size) cs ls) : Tiles pos (c :: cs) ls
  | lexeme {pos : Nat} {w rest : List Char} {l : Lexeme} {ls : List Placed} (hw : w ≠ []) (hl : Cut l w rest)
      (h : Tiles (pos + Text.byteLength w) rest ls) :
      Tiles pos (w ++ rest) (⟨l, ⟨pos, pos + Text.byteLength w⟩⟩ :: ls)

/-- Characters passed over are read no more, but their bytes count. -/
theorem scanFrom_skip (skip pos : Nat) (cs : List Char) :
    scanFrom skip pos cs = scanFrom 0 (pos + Text.byteLength (cs.take skip)) (cs.drop skip) := by
  induction cs generalizing skip pos with
  | nil => cases skip <;> rfl
  | cons c cs ih =>
    cases skip with
    | zero => rfl
    | succ skip => rw [scanFrom, ih, List.take_succ_cons, List.drop_succ_cons, Text.byteLength, Nat.add_assoc]

theorem scanFrom_cons {c : Char} (hc : isGap c = false) (pos : Nat) (cs : List Char) :
    let n := (first (c :: cs)).2
    scanFrom 0 pos (c :: cs) =
      placedAt pos (c :: cs) :: scanFrom 0 (pos + Text.byteLength ((c :: cs).take n)) ((c :: cs).drop n) := by
  obtain ⟨n, hn⟩ := Nat.exists_eq_succ_of_ne_zero (first_length_pos c cs).ne'
  rw [scanFrom, hc, if_neg Bool.false_ne_true]
  dsimp only
  rw [placedAt, hn, Nat.succ_sub_one, scanFrom_skip, List.take_succ_cons, List.drop_succ_cons, Text.byteLength,
    Nat.add_assoc]

private theorem scanFrom_tiles (pos : Nat) (cs : List Char) : Tiles pos cs (scanFrom 0 pos cs) := by
  induction hlength : cs.length using Nat.strong_induction_on generalizing pos cs with
  | h k ih =>
    cases cs with
    | nil => exact .done pos
    | cons c cs =>
      cases hc : isGap c with
      | true =>
        rw [scanFrom, if_pos hc]
        exact .gap hc (ih cs.length (hlength ▸ Nat.lt_succ_self _) _ cs rfl)
      | false =>
        have hpos := first_length_pos c cs
        have hword : (c :: cs).take (first (c :: cs)).2 ≠ [] := by simp [hpos.ne']
        have hshorter : ((c :: cs).drop (first (c :: cs)).2).length < k := by
          rw [List.length_drop, hlength]
          exact Nat.sub_lt (hlength ▸ Nat.succ_pos _) hpos
        rw [scanFrom_cons hc]
        have htiles : Tiles pos (_ ++ _) _ := .lexeme hword (cut_first hc cs) (ih _ hshorter _ _ rfl)
        rwa [List.take_append_drop] at htiles

theorem scan_tiles (s : String) : Tiles 0 s.toList (scan s) := scanFrom_tiles 0 s.toList

namespace Tiles
variable {pos : Nat} {cs : List Char} {ls : List Placed}

/-- Each lexeme stands for a word of the text. -/
theorem exists_word (h : Tiles pos cs ls) {l : Placed} (hl : l ∈ ls) :
    ∃ before w after, cs = before ++ w ++ after ∧ w ≠ [] ∧ l.span = .behind pos before w ∧ Cut l.lexeme w after := by
  induction h with
  | done => cases hl
  | @gap pos c cs ls hc h ih =>
    obtain ⟨before, w, after, rfl, hw, hspan, hcut⟩ := ih hl
    refine ⟨c :: before, w, after, rfl, hw, ?_, hcut⟩
    rw [hspan, Text.Span.behind, Text.Span.behind, Text.byteLength, Nat.add_assoc pos]
  | @lexeme pos u rest k ls hu hk h ih =>
    rcases List.mem_cons.1 hl with rfl | hl
    · exact ⟨[], u, rest, rfl, hu, rfl, hk⟩
    · obtain ⟨before, w, after, rfl, hw, hspan, hcut⟩ := ih hl
      refine ⟨u ++ before, w, after, by simp, hw, ?_, hcut⟩
      rw [hspan, Text.Span.behind, Text.Span.behind, Text.byteLength_append, Nat.add_assoc pos]

/-- Each lexeme ends before the next begins. -/
theorem pairwise (h : Tiles pos cs ls) : ls.Pairwise fun l m => l.span.stop ≤ m.span.start := by
  induction h with
  | done => exact .nil
  | gap hc h ih => exact ih
  | lexeme hw hl h ih =>
    refine List.pairwise_cons.2 ⟨fun m hm => ?_, ih⟩
    obtain ⟨before, w, after, -, -, hspan, -⟩ := h.exists_word hm
    rw [hspan]
    exact Nat.le_add_right _ _

/-- Only white space stands outside. -/
theorem isGap_of_outside (h : Tiles pos cs ls) {before after : List Char} {c : Char} (hcs : cs = before ++ c :: after)
    (hout : ∀ l ∈ ls, pos + Text.byteLength before < l.span.start ∨ l.span.stop ≤ pos + Text.byteLength before) :
    isGap c = true := by
  induction h generalizing before with
  | done => simp at hcs
  | @gap pos d cs ls hd h ih =>
    rcases List.cons_eq_append_iff.1 hcs with ⟨rfl, hcs⟩ | ⟨before, rfl, rfl⟩
    · cases hcs
      exact hd
    · refine ih rfl fun l hl => ?_
      rw [Nat.add_assoc]
      exact hout l hl
  | @lexeme pos w rest k ls hw hk h ih =>
    rcases List.append_eq_append_iff.1 hcs with ⟨between, rfl, hrest⟩ | ⟨tail, rfl, htail⟩
    · refine ih hrest fun l hl => ?_
      rw [Nat.add_assoc, ← Text.byteLength_append]
      exact hout l (List.mem_cons_of_mem _ hl)
    · cases tail with
      | nil =>
        refine ih (show rest = [] ++ c :: after from htail.symm) fun l hl => ?_
        simpa [Text.byteLength] using hout l (List.mem_cons_of_mem _ hl)
      | cons d tail =>
        have hinside := hout _ List.mem_cons_self
        have hpos := byteLength_pos (List.cons_ne_nil d tail)
        rw [Text.byteLength_append] at hinside
        dsimp only at hinside
        omega

end Tiles

end Lexeme

end Tabletop
