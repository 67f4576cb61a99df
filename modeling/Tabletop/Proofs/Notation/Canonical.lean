import Mathlib.Data.List.Forall2
import Tabletop.Proofs.Notation.Adjoining
import Tabletop.Proofs.Notation.Parsing

/-! Dice written out with their conditions and modifiers, one behind the other without blanks. What is written is read
again as the same dice with the same conditions and the same modifiers. -/
namespace Tabletop

namespace Pattern
open Text

private theorem matches_word (s : String) : (word s).Matches s.toList := by
  rw [word]
  induction s.toList with
  | nil => exact .nothing
  | cons c cs ih => exact .seq (.char c) ih

private theorem matches_many_digit (n : Nat) : (many digit).Matches (toString n).toList :=
  matches_many_of_forall fun _ hc => .digit (isDigit_of_mem_toString hc)

private theorem matches_digits_toString (n : Nat) : digits.Matches (toString n).toList :=
  matches_digits (toString_ne_nil n) fun _ => isDigit_of_mem_toString

private theorem matches_signOf (i : Int) : (optional (char '-')).Matches (signOf i) := by
  rw [signOf]
  split
  · exact .left (.char '-')
  · exact .right .nothing

end Pattern

/-- The three ways to write faces. -/
theorem Faces.text_cases (f : Faces) (h : f.fudge = true → f = .fudgeDie) :
    (f = .fudgeDie ∧ f.text.toList = ['F']) ∨
    (∃ x : Int64, 0 < x.toInt ∧ f = .sided x ∧ f.text.toList = (toString x.toInt).toList) ∨
    ∃ a b : Int64, f = .between a b ∧
      f.text.toList = '[' :: ((toString a.toInt).toList ++ ',' :: ((toString b.toInt).toList ++ [']'])) := by
  obtain ⟨low, high, fudge, hle⟩ := f
  have hbetween : between low high = ⟨low, high, false, hle⟩ := dif_neg (Int.not_lt.2 hle)
  cases fudge with
  | true => exact .inl ⟨h rfl, by simp [text]⟩
  | false =>
    by_cases hone : low = 1
    · subst hone
      exact .inr (.inl ⟨high, Int.lt_of_lt_of_le (by decide) hle, hbetween.symm, rfl⟩)
    · refine .inr (.inr ⟨low, high, hbetween.symm, ?_⟩)
      simp [text, hone]

namespace Lexeme
open Pattern Text LexemeRule

/-! Dice -/

private theorem readDice?_toString {n : Nat} (hpos : 0 < n) (hmax : n ≤ maxDice) (cs : List Char) :
    readDice? ((toString n).toList ++ 'd' :: cs) = (facesOf? cs).map (.dice n) := by
  have htake (p : Char → Bool) (hp : ∀ c, isDigit c = true → p c = true) (hd : p 'd' = false) :
      ((toString n).toList ++ 'd' :: cs).takeWhile p = (toString n).toList := by
    rw [List.takeWhile_append_of_pos fun c hc => hp c (isDigit_of_mem_toString hc),
      List.takeWhile_cons_of_neg (by simp [hd]), List.append_nil]
  have hdrop (p : Char → Bool) (hp : ∀ c, isDigit c = true → p c = true) (hd : p 'd' = false) :
      ((toString n).toList ++ 'd' :: cs).dropWhile p = 'd' :: cs := by
    rw [List.dropWhile_append_of_pos fun c hc => hp c (isDigit_of_mem_toString hc),
      List.dropWhile_cons_of_neg (by simp [hd])]
  have hletter (c : Char) (hc : isDigit c = true) : (!(c == 'd' || c == 'D')) = true := by
    have hd : c ≠ 'd' := fun h => absurd (h ▸ hc) (by decide)
    have hD : c ≠ 'D' := fun h => absurd (h ▸ hc) (by decide)
    simp [hd, hD]
  have hcount : diceCount? (toString n).toList = some n := by
    rw [diceCount?, if_neg (toString_ne_nil n), readNatUpTo?_toString hmax, Option.filter, if_pos (decide_eq_true hpos)]
  rw [readDice?, htake, hdrop, hcount]
  · cases hfaces : facesOf? cs <;> simp [hfaces]
  · exact hletter
  · rfl
  · exact hletter
  · rfl

private theorem facesOf?_of_isDigit {cs : List Char} (h : ∀ c ∈ cs, isDigit c = true) :
    facesOf? cs = ((readWhole? cs).filter (· ≠ 0)).map .sided := by
  rw [facesOf?]
  · rintro rfl
    exact absurd (h '%' List.mem_cons_self) (by decide)
  · rintro rfl
    exact absurd (h 'F' List.mem_cons_self) (by decide)
  · rintro range rfl
    exact absurd (h '[' List.mem_cons_self) (by decide)

/-- Between brackets both ends are read, up to the comma and behind it. -/
theorem facesOf?_range (a b : Int64) :
    facesOf? ('[' :: ((toString a.toInt).toList ++ ',' :: ((toString b.toInt).toList ++ [']']))) =
      some (.between a b) := by
  have hinteger (x : Int64) {c : Char} (h : c ∈ (toString x.toInt).toList) : c ≠ ',' ∧ c ≠ ' ' := by
    rcases isDigit_or_minus_of_mem_toString h with hdigit | rfl
    · exact ⟨fun heq => absurd (heq ▸ hdigit) (by decide), fun heq => absurd (heq ▸ hdigit) (by decide)⟩
    · decide
  have hspaces (x : Int64) : (toString x.toInt).toList.filter (· ≠ ' ') = (toString x.toInt).toList :=
    List.filter_eq_self.2 fun c hc => decide_eq_true (hinteger x hc).2
  have hread (x : Int64) : readWhole? ((toString x.toInt).toList.filter (· ≠ ' ')) = some x := by
    rw [hspaces, readWhole?_toString_toInt]
  have hcomma : ∀ c ∈ (toString a.toInt).toList, decide (c ≠ ',') = true := fun c hc =>
    decide_eq_true (hinteger a hc).1
  rw [facesOf?, List.takeWhile_append_of_pos hcomma, List.dropWhile_append_of_pos hcomma,
    List.takeWhile_cons_of_neg (by decide), List.dropWhile_cons_of_neg (by decide), List.append_nil, List.drop_one,
    List.tail_cons, List.dropLast_concat]
  split
  · rename_i a' b' ha hb
    cases (hread a).symm.trans ha
    cases (hread b).symm.trans hb
    rfl
  · rename_i hnone
    exact absurd (hread b) (hnone a b (hread a))

/-- Faces are read as they are written. -/
theorem facesOf?_text {f : Faces} (h : f.fudge = true → f = .fudgeDie) : facesOf? f.text.toList = some f := by
  obtain ⟨rfl, -⟩ | ⟨x, hpos, rfl, htext⟩ | ⟨a, b, rfl, htext⟩ := f.text_cases h
  · rfl
  · have hzero : x ≠ 0 := by
      rintro rfl
      exact absurd hpos (by decide)
    have hdigits : ∀ c ∈ (toString x.toInt).toList, isDigit c = true := by
      rw [toList_toString_of_nonneg (Int.le_of_lt hpos)]
      exact fun c => isDigit_of_mem_toString
    rw [htext, facesOf?_of_isDigit hdigits, readWhole?_toString_toInt, Option.filter, if_pos (decide_eq_true hzero),
      Option.map_some]
  · rw [htext, facesOf?_range]

/-! Conditions -/

/-- No comparison has a digit in its sign. -/
theorem isDigit_of_ofText? {s : String} {c : Comparison} (h : Comparison.ofText? s = some c) :
    s.toList.any isDigit = false := by
  unfold Comparison.ofText? at h
  split at h
  case h_10 => cases h
  all_goals decide

/-- A sign of one character is read where the two first characters are no sign. -/
theorem readCondition?_of_sign {sign bound : List Char} {c : Comparison} {x : Int64}
    (hsign : Comparison.ofText? (.ofList sign) = some c) (hbound : readWhole? bound = some x) (hne : bound ≠ [])
    (hlength : sign.length = 2 ∨
      sign.length = 1 ∧ Comparison.ofText? (.ofList ((sign ++ bound).take 2)) = none) :
    readCondition? (sign ++ bound) = some (.condition ⟨c, .whole x⟩) := by
  have hcut : (if (sign ++ bound).length > 2 && (Comparison.ofText? (.ofList ((sign ++ bound).take 2))).isSome
      then 2 else 1) = sign.length := by
    rcases hlength with htwo | ⟨hone, hnone⟩
    · have htake : (sign ++ bound).take 2 = sign := by rw [← htwo, List.take_left]
      simp [htake, hsign, htwo, hne]
    · simp [hnone, hone]
  rw [readCondition?]
  simp only [hcut, List.take_left, List.drop_left, hsign, hbound]
  rfl

/-- A condition is read as it is written, but for a minus sign behind an equal sign, with which it makes up another. -/
theorem readCondition?_text {c : Comparison} {x : Int64} (h : c = .equal → 0 ≤ x.toInt) :
    readCondition? (c.text.toList ++ (toString x.toInt).toList) = some (.condition ⟨c, .whole x⟩) := by
  have hsign : Comparison.ofText? (.ofList c.text.toList) = some c := by
    rw [String.ofList_toList, Comparison.ofText?_text]
  have hbound := readWhole?_toString_toInt x
  obtain ⟨d, ds, hwritten, hd⟩ := exists_cons_toString x.toInt
  rw [hwritten] at hbound ⊢
  have hone (s : Char) (hs : c.text.toList = [s])
      (hminus : x.toInt < 0 → Comparison.ofText? (.ofList [s, '-']) = none) :
      readCondition? (c.text.toList ++ d :: ds) = some (.condition ⟨c, .whole x⟩) := by
    rw [hs] at hsign ⊢
    refine readCondition?_of_sign hsign hbound (List.cons_ne_nil d ds) (.inr ⟨rfl, ?_⟩)
    rcases hd with hdigit | ⟨rfl, hneg⟩
    · rw [Option.eq_none_iff_forall_ne_some]
      intro other hother
      exact absurd hdigit (List.any_eq_false.1 (isDigit_of_ofText? hother) d (by simp))
    · exact hminus hneg
  cases c with
  | equal => exact hone '=' rfl fun hneg => absurd (h rfl) (Int.not_le.2 hneg)
  | less => exact hone '<' rfl fun _ => rfl
  | greater => exact hone '>' rfl fun _ => rfl
  | notEqual | lessEqual | greaterEqual | negate =>
    exact readCondition?_of_sign hsign hbound (List.cons_ne_nil d ds) (.inl rfl)

/-! Modifiers -/

private theorem keepCount?_toString {n : Nat} (h : n ≤ WrittenModifier.maxCount) :
    keepCount? (toString n).toList = some n := by
  rw [keepCount?, if_neg (toString_ne_nil n), readNatUpTo?_toString h]

private theorem repeats?_toString (byDefault : Repeats) {n : Nat} (h : n ≤ WrittenModifier.maxCount) :
    repeats? byDefault (toString n).toList = some (.times n) := by
  rw [repeats?, readNatUpTo?_toString h, Option.map_some]
  · exact toString_ne_nil n
  · intro hi
    have hdigit : isDigit 'i' = true := isDigit_of_mem_toString (n := n) (hi ▸ List.mem_cons_self)
    exact absurd hdigit (by decide)

end Lexeme

/-- A modifier with the count written out. -/
def ModifierKind.written : ModifierKind → Nat → WrittenModifier
  | keepHigh, n => .keepHigh n
  | keepLow, n => .keepLow n
  | explode, n => .explode (.times n)
  | explodeCombine, n => .explodeCombine (.times n)
  | reroll, n => .reroll (.times n)

private theorem ModifierKind.resolve_written (k : ModifierKind) (n dice : Nat) (cs : List Condition) :
    (k.written n).resolve dice cs = ⟨k, n, cs⟩ := by cases k <;> rfl

namespace LexemeRule
open Pattern Text Lexeme

private theorem exists_rule_of_kind (k : ModifierKind) {n : Nat} (h : n ≤ WrittenModifier.maxCount) :
    ∃ r ∈ all, r.pattern.Matches (k.text.toList ++ (toString n).toList) ∧
      r.read? (k.text.toList ++ (toString n).toList) = some (.modifier (k.written n)) := by
  have hname := matches_word k.text
  have hdigits := matches_digits_toString n
  have hmany := matches_many_digit n
  have hoptional : (optional (either (char 'i') digits)).Matches (toString n).toList := .left (.right hdigits)
  have hkeep := keepCount?_toString h
  have hrepeats (byDefault : Repeats) := repeats?_toString byDefault h
  cases k with
  | keepHigh => exact ⟨all[5], List.getElem_mem _, .seq hname hmany, congrArg (Option.map _) hkeep⟩
  | keepLow => exact ⟨all[6], List.getElem_mem _, .seq hname hmany, congrArg (Option.map _) hkeep⟩
  | explodeCombine => exact ⟨all[9], List.getElem_mem _, .seq hname hoptional, congrArg (Option.map _) (hrepeats _)⟩
  | explode => exact ⟨all[10], List.getElem_mem _, .seq hname hoptional, congrArg (Option.map _) (hrepeats _)⟩
  | reroll => exact ⟨all[11], List.getElem_mem _, .seq hname hoptional, congrArg (Option.map _) (hrepeats _)⟩

/-- An end of a range, without the blanks that may be around it. -/
theorem matches_rangeEnd (x : Int64) :
    (sequence [many (char ' '), optional (char '-'), digits, many (char ' ')]).Matches (toString x.toInt).toList := by
  have hparts : (toString x.toInt).toList = [] ++ (signOf x.toInt ++ ((toString x.toInt.natAbs).toList ++ [])) := by
    rw [List.nil_append, List.append_nil, toList_toString_int]
  rw [hparts]
  exact .seq .stop (.seq (matches_signOf x.toInt) (.seq (matches_digits_toString _) .stop))

private theorem matches_conditional (c : Comparison) (x : Int64) :
    conditional.Matches (c.text.toList ++ (toString x.toInt).toList) := by
  have hsign : comparison.Matches c.text.toList := by cases c <;> decide
  rw [toList_toString_int, ← List.append_nil (toString x.toInt.natAbs).toList]
  exact .seq hsign (.seq (matches_signOf x.toInt) (.seq (matches_digits_toString _) (.right .nothing)))

/-- Dice with a bracket are a range. -/
theorem matches_dice (n : Nat) {f : Faces} (h : f.fudge = true → f = .fudgeDie) :
    let w := (toString n).toList ++ 'd' :: f.text.toList
    plainDice.Matches w ∧ '[' ∉ w ∨ rangeDice.Matches w := by
  intro w
  have hcount := matches_many_digit n
  have hnumber (m : Nat) : '[' ∉ (toString m).toList := fun hmem =>
    absurd (isDigit_of_mem_toString hmem) (by decide)
  obtain ⟨-, htext⟩ | ⟨x, hpos, -, htext⟩ | ⟨a, b, -, htext⟩ := f.text_cases h
  · have hw : w = (toString n).toList ++ (['d'] ++ ['F']) := by rw [← htext, List.singleton_append]
    rw [hw, List.mem_append, not_or]
    exact .inl ⟨.seq hcount (.seq (.left (.char 'd')) (.right (.right (.char 'F')))), hnumber n, by decide⟩
  · have hw : w = (toString n).toList ++ (['d'] ++ (toString x.toInt.natAbs).toList) := by
      rw [← toList_toString_of_nonneg (Int.le_of_lt hpos), ← htext, List.singleton_append]
    rw [hw, List.mem_append, List.mem_append, not_or, not_or]
    exact .inl ⟨.seq hcount (.seq (.left (.char 'd')) (.left (matches_digits_toString _))), hnumber n, by decide,
      hnumber _⟩
  · have hw : w = (toString n).toList ++ (['d'] ++ (['['] ++ ((toString a.toInt).toList ++ ([','] ++
        ((toString b.toInt).toList ++ [']']))))) := by
      simp only [List.singleton_append, ← htext, w]
    rw [hw]
    exact .inr (.seq hcount (.seq (.left (.char 'd')) (.seq (.char '[')
      (.seq (matches_rangeEnd a) (.seq (.char ',') (.seq (matches_rangeEnd b) (.char ']')))))))

end LexemeRule

/-- A condition that can be read from its text: its bound is whole, and no minus sign stands behind an equal sign. -/
def Condition.Readable (c : Condition) : Prop := ∃ x, c.bound = .whole x ∧ (c.comparison = .equal → 0 ≤ x.toInt)

/-- A modifier that can be read from its text. -/
structure Modifier.Readable (m : Modifier) : Prop where
  count_le : m.count ≤ WrittenModifier.maxCount
  allowed : m.conditions = [] ∨ m.kind = .explode ∨ m.kind = .explodeCombine ∨ m.kind = .reroll
  conditions : ∀ c ∈ m.conditions, c.Readable

/-- The text of a condition and its lexeme. -/
def Condition.word (c : Condition) : List Char × Lexeme := (c.text.toList, .condition c)

/-- The texts of a modifier and of its conditions with their lexemes. -/
def Modifier.words (m : Modifier) : List (List Char × Lexeme) :=
  (m.kind.text.toList ++ (toString m.count).toList, .modifier (m.kind.written m.count)) ::
    m.conditions.map Condition.word

namespace Lexeme
open Pattern Text LexemeRule

private theorem piece_dice {n : Nat} {f : Faces} (hpos : 0 < n) (hmax : n ≤ maxDice)
    (h : f.fudge = true → f = .fudgeDie) : Piece ((toString n).toList ++ 'd' :: f.text.toList) (.dice n f) := by
  have hdice := matches_dice n h
  have hm : (either plainDice rangeDice).Matches ((toString n).toList ++ 'd' :: f.text.toList) :=
    matches_either.2 (hdice.imp And.left id)
  refine ⟨matches_anyOf.2 ⟨_, List.mem_cons_self, hm⟩, ⟨all[2], List.getElem_mem _, hm, ?_⟩, nofun,
    fun hbracket => ?_⟩
  · exact (readDice?_toString hpos hmax f.text.toList).trans (congrArg _ (facesOf?_text h))
  · exact hdice.resolve_left fun hplain => hplain.2 hbracket

private theorem exists_word_eq {c : Condition} (h : c.Readable) :
    ∃ (comparison : Comparison) (x : Int64), (comparison = .equal → 0 ≤ x.toInt) ∧
      c.word = (comparison.text.toList ++ (toString x.toInt).toList, .condition ⟨comparison, .whole x⟩) := by
  obtain ⟨comparison, bound⟩ := c
  obtain ⟨x, rfl, hequal⟩ := h
  refine ⟨comparison, x, hequal, ?_⟩
  rw [Condition.word, Condition.text, String.toList_append]
  rfl

private theorem continues_condition {c : Condition} (h : c.Readable) : Continues c.word.1 := by
  obtain ⟨comparison, x, -, hword⟩ := exists_word_eq h
  have hsign : Continues comparison.text.toList ∧ comparison.text.toList ≠ [] := by cases comparison <;> decide
  rw [hword]
  refine hsign.1.append_inner hsign.2 fun d hd => (isDigit_or_minus_of_mem_toString hd).imp_right ?_
  rintro rfl
  decide

private theorem continues_modifier (k : ModifierKind) (n : Nat) : Continues (k.text.toList ++ (toString n).toList) := by
  have hname : Continues k.text.toList ∧ k.text.toList ≠ [] := by cases k <;> decide
  exact hname.1.append_inner hname.2 fun d hd => .inl (isDigit_of_mem_toString hd)

private theorem piece_condition {c : Condition} (h : c.Readable) : Piece c.word.1 c.word.2 := by
  have hbracket := (continues_condition h).not_mem_openBracket
  obtain ⟨comparison, x, hequal, hword⟩ := exists_word_eq h
  have hm := matches_conditional comparison x
  rw [hword] at hbracket ⊢
  exact ⟨matches_anyOf.2 ⟨_, List.mem_cons_of_mem _ List.mem_cons_self, hm⟩,
    ⟨all[12], List.getElem_mem _, hm, readCondition?_text hequal⟩, nofun, (absurd · hbracket)⟩

private theorem piece_modifier (k : ModifierKind) {n : Nat} (h : n ≤ WrittenModifier.maxCount) :
    Piece (k.text.toList ++ (toString n).toList) (.modifier (k.written n)) := by
  have hm : (seq (Pattern.word k.text) digits).Matches (k.text.toList ++ (toString n).toList) :=
    .seq (matches_word k.text) (matches_digits_toString n)
  have hname : k.text ∈ ["kh", "kl", "!", "!!", "r"] := by cases k <;> decide
  exact ⟨matches_anyOf.2 ⟨_, List.mem_cons_of_mem _ (List.mem_cons_of_mem _ (List.mem_map_of_mem hname)), hm⟩,
    exists_rule_of_kind k h, nofun, (absurd · (continues_modifier k n).not_mem_openBracket)⟩

private theorem words_of_conditions {cs : List Condition} (h : ∀ c ∈ cs, c.Readable) :
    ∀ p ∈ cs.map Condition.word, Piece p.1 p.2 ∧ Continues p.1 := by
  intro p hp
  obtain ⟨c, hc, rfl⟩ := List.mem_map.1 hp
  exact ⟨piece_condition (h c hc), continues_condition (h c hc)⟩

private theorem words_of_modifiers {ms : List Modifier} (h : ∀ m ∈ ms, m.Readable) :
    ∀ p ∈ ms.flatMap Modifier.words, Piece p.1 p.2 ∧ Continues p.1 := by
  intro p hp
  obtain ⟨m, hm, hp⟩ := List.mem_flatMap.1 hp
  rcases List.mem_cons.1 hp with rfl | hp
  · exact ⟨piece_modifier m.kind (h m hm).count_le, continues_modifier m.kind m.count⟩
  · exact words_of_conditions (h m hm).conditions p hp

end Lexeme

/-- Dice written out, with their conditions and modifiers. -/
def writtenDice (n : Nat) (f : Faces) (cs : List Condition) (ms : List Modifier) : String :=
  toString n ++ "d" ++ f.text ++ String.join (cs.map Condition.text) ++ String.join (ms.map Modifier.text)

/-- The texts that dice are written out in, with their lexemes. -/
def diceWords (n : Nat) (f : Faces) (cs : List Condition) (ms : List Modifier) : List (List Char × Lexeme) :=
  ((toString n).toList ++ 'd' :: f.text.toList, .dice n f) ::
    (cs.map Condition.word ++ ms.flatMap Modifier.words)

private theorem toList_writtenDice (n : Nat) (f : Faces) (cs : List Condition) (ms : List Modifier) :
    (writtenDice n f cs ms).toList = (diceWords n f cs ms).flatMap Prod.fst := by
  have hconditions (cs : List Condition) :
      (cs.map Condition.word).flatMap Prod.fst = (String.join (cs.map Condition.text)).toList := by
    rw [String.toList_join, List.flatMap_map, List.flatMap_map]
    rfl
  have hmodifiers : (ms.flatMap Modifier.words).flatMap Prod.fst = (String.join (ms.map Modifier.text)).toList := by
    rw [String.toList_join, List.flatMap_assoc, List.flatMap_map]
    refine List.flatMap_congr fun m _ => ?_
    rw [Modifier.words, List.flatMap_cons, hconditions, Modifier.text]
    simp
  rw [diceWords, List.flatMap_cons, List.flatMap_append, hconditions, hmodifiers]
  simp [writtenDice]

/-- The lexemes of written dice are the dice, their conditions, and each modifier with its own. -/
theorem map_lexeme_writtenDice {n : Nat} {f : Faces} {cs : List Condition} {ms : List Modifier} (hpos : 0 < n)
    (hmax : n ≤ Lexeme.maxDice) (hf : f.fudge = true → f = .fudgeDie) (hcs : ∀ c ∈ cs, c.Readable)
    (hms : ∀ m ∈ ms, m.Readable) :
    (Lexeme.scan (writtenDice n f cs ms)).map (·.lexeme) = (diceWords n f cs ms).map Prod.snd := by
  have hbehind : ∀ p ∈ cs.map Condition.word ++ ms.flatMap Modifier.words,
      Lexeme.Piece p.1 p.2 ∧ LexemeRule.Continues p.1 := fun p hp =>
    (List.mem_append.1 hp).elim (Lexeme.words_of_conditions hcs p) (Lexeme.words_of_modifiers hms p)
  rw [Lexeme.scan, toList_writtenDice]
  have hrest : ∀ p ∈ (diceWords n f cs ms).tail, LexemeRule.Continues p.1 := fun p hp => (hbehind p hp).2
  refine Lexeme.map_lexeme_scanFrom (fun p hp => ?_) hrest 0
  rcases List.mem_cons.1 hp with rfl | hp
  · exact Lexeme.piece_dice hpos hmax hf
  · exact (hbehind p hp).1

namespace Grammar

private theorem exists_placedConditions {cs : List Condition} {ls : List Lexeme.Placed}
    (h : ls.map (·.lexeme) = (cs.map Condition.word).map Prod.snd) :
    ∃ placed : List PlacedCondition, placed.map PlacedCondition.lexeme = ls ∧ placed.map (·.condition) = cs := by
  induction cs generalizing ls with
  | nil => exact ⟨[], (List.map_eq_nil_iff.1 h).symm, rfl⟩
  | cons c cs ih =>
    obtain ⟨⟨lexeme, span⟩, rest, rfl, hl, hrest⟩ := List.map_eq_cons_iff.1 h
    obtain rfl : lexeme = .condition c := hl
    obtain ⟨placed, rfl, rfl⟩ := ih hrest
    exact ⟨⟨c, span⟩ :: placed, rfl, rfl⟩

private theorem exists_suffixes {ms : List Modifier} (hms : ∀ m ∈ ms, m.Readable) {ls : List Lexeme.Placed}
    (h : ls.map (·.lexeme) = (ms.flatMap Modifier.words).map Prod.snd) :
    ∃ ss : List Suffix, ss.flatMap Suffix.lexemes = ls ∧
      List.Forall₂ (fun s m => s.modifier = m.kind.written m.count ∧ s.conditions.map (·.condition) = m.conditions)
        ss ms := by
  induction ms generalizing ls with
  | nil => exact ⟨[], (List.map_eq_nil_iff.1 h).symm, .nil⟩
  | cons m ms ih =>
    rw [List.flatMap_cons, List.map_append] at h
    obtain ⟨own, rest, rfl, hown, hrest⟩ := List.map_eq_append_iff.1 h
    obtain ⟨⟨lexeme, span⟩, behind, rfl, hl, hbehind⟩ := List.map_eq_cons_iff.1 hown
    obtain rfl : lexeme = .modifier (m.kind.written m.count) := hl
    obtain ⟨placed, rfl, hplaced⟩ := exists_placedConditions hbehind
    obtain ⟨ss, rfl, hss⟩ := ih (fun x hx => hms x (List.mem_cons_of_mem m hx)) hrest
    have hallowed : placed = [] ∨ (m.kind.written m.count).takesConditions := by
      rcases (hms m List.mem_cons_self).allowed with hnil | hkind | hkind | hkind
      · exact .inl (List.map_eq_nil_iff.1 (hplaced.trans hnil))
      all_goals exact .inr (hkind ▸ rfl)
    exact ⟨⟨_, span, placed, hallowed⟩ :: ss, rfl, .cons ⟨rfl, hplaced⟩ hss⟩

/-- Lexemes of dice with conditions and modifiers are those of an operand. -/
theorem exists_operand {n : Nat} {f : Faces} {cs : List Condition} {ms : List Modifier} (hms : ∀ m ∈ ms, m.Readable)
    {ls : List Lexeme.Placed} (h : ls.map (·.lexeme) = (diceWords n f cs ms).map Prod.snd) :
    ∃ o : Operand, o.lexemes = ls ∧ ∃ span modifiers, o.tokens = ⟨.dice n f cs, span⟩ :: modifiers ∧
      List.Forall₂ (fun t m => ∃ w, t.token = .modifier w m.conditions ∧ w.resolve n m.conditions = m)
        modifiers ms := by
  obtain ⟨⟨lexeme, span⟩, rest, rfl, hl, hrest⟩ := List.map_eq_cons_iff.1 h
  obtain rfl : lexeme = .dice n f := hl
  rw [List.map_append] at hrest
  obtain ⟨own, behind, rfl, hown, hbehind⟩ := List.map_eq_append_iff.1 hrest
  obtain ⟨placed, rfl, rfl⟩ := exists_placedConditions hown
  obtain ⟨ss, rfl, hss⟩ := exists_suffixes hms hbehind
  refine ⟨⟨.dice n f placed, span, ss⟩, rfl, reach span placed, ss.map Suffix.token, rfl, ?_⟩
  rw [List.forall₂_map_left_iff]
  refine hss.imp fun s m hs => ⟨s.modifier, ?_, ?_⟩
  · rw [Suffix.token, hs.2]
  · rw [hs.1, ModifierKind.resolve_written]

end Grammar

/-- Dice that are written out are read as themselves, with their conditions, and their modifiers behind them. -/
theorem Formula.read_writtenDice {n : Nat} {f : Faces} {cs : List Condition} {ms : List Modifier} (hpos : 0 < n)
    (hmax : n ≤ Lexeme.maxDice) (hf : f = .fudgeDie ∨ ∃ a b, f = .between a b) (hcs : ∀ c ∈ cs, c.Readable)
    (hms : ∀ m ∈ ms, m.Readable) :
    ∃ span modifiers,
      read (writtenDice n f cs ms) = .ok ⟨writtenDice n f cs ms, ⟨.dice n f cs, span⟩ :: modifiers⟩ ∧
      List.Forall₂ (fun t m => ∃ w, t.token = .modifier w m.conditions ∧ w.resolve n m.conditions = m)
        modifiers ms := by
  have hfudge : f.fudge = true → f = .fudgeDie := by
    rcases hf with rfl | ⟨a, b, rfl⟩
    · exact fun _ => rfl
    · rw [Faces.between]
      split <;> exact nofun
  have hscan := map_lexeme_writtenDice hpos hmax hfudge hcs hms
  obtain ⟨o, hlex, span, modifiers, htokens, hmodifiers⟩ := Grammar.exists_operand hms hscan
  refine ⟨span, modifiers, ?_, hmodifiers⟩
  have hderives : Grammar.Derives .sum (.operand o) := (Grammar.Derives.operand o).weaken (Nat.zero_le _)
  have hvisible : Text.trimChars (writtenDice n f cs ms).toList ≠ [] := by
    intro hblank
    obtain ⟨c, hc⟩ := List.exists_mem_of_ne_nil _ (Text.toString_ne_nil n)
    have hmem : c ∈ (writtenDice n f cs ms).toList := by
      rw [toList_writtenDice, diceWords, List.flatMap_cons]
      exact List.mem_append_left _ (List.mem_append_left _ hc)
    have hdigit := Text.isDigit_eq_false_of_isBlank (Text.isBlank_of_trimChars_eq_nil hblank c hmem)
    rw [Text.isDigit_of_mem_toString hc] at hdigit
    cases hdigit
  rw [read, if_neg hvisible, ← hlex, ← htokens]
  exact hderives.ofLexemes

/-- Three dice of a range, with a count of successes and of failures, and three modifiers. -/
theorem Formula.read_writtenDice_range :
    let cs : List Condition := [⟨.greaterEqual, .whole 5⟩, ⟨.negate, .whole 1⟩]
    let ms : List Modifier :=
      [⟨.explode, 3, [⟨.notEqual, .whole 5⟩]⟩, ⟨.keepHigh, 2, []⟩, ⟨.reroll, 1, [⟨.less, .whole (-1)⟩]⟩]
    let text := "3d[-4,2]>=5-=1!3!=5kh2r1<-1"
    (writtenDice 3 (.between 2 (-4)) cs ms = text ∧ 3 ≤ Lexeme.maxDice ∧ (∀ c ∈ cs, c.Readable) ∧
        ∀ m ∈ ms, m.Readable) ∧
      ∃ span modifiers, read text = .ok ⟨text, ⟨.dice 3 (.between 2 (-4)) cs, span⟩ :: modifiers⟩ ∧
        List.Forall₂ (fun t m => ∃ w, t.token = .modifier w m.conditions ∧ w.resolve 3 m.conditions = m)
          modifiers ms := by
  intro cs ms text
  have htext : writtenDice 3 (.between 2 (-4)) cs ms = text := by decide +kernel
  have hcs : ∀ c ∈ cs, c.Readable := by
    simp only [cs, List.forall_mem_cons]
    exact ⟨⟨5, rfl, nofun⟩, ⟨1, rfl, nofun⟩, nofun⟩
  have hms : ∀ m ∈ ms, m.Readable := by
    simp only [ms, List.forall_mem_cons]
    refine ⟨⟨by decide, .inr (.inl rfl), ?_⟩, ⟨by decide, .inl rfl, nofun⟩, ⟨by decide, .inr (.inr (.inr rfl)), ?_⟩,
      nofun⟩
    · exact List.forall_mem_singleton.2 ⟨5, rfl, nofun⟩
    · exact List.forall_mem_singleton.2 ⟨-1, rfl, nofun⟩
  have hread := Formula.read_writtenDice (n := 3) (by decide) (by decide) (.inr ⟨2, -4, rfl⟩) hcs hms
  rw [htext] at hread
  exact ⟨⟨htext, by decide, hcs, hms⟩, hread⟩

end Tabletop
