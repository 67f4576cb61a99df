import Tabletop.Proofs.Text.Case
import Tabletop.Proofs.Text.Digits
import Tabletop.Proofs.Text.Splitting
import Tabletop.Proofs.Text.Trimming
import Tabletop.Table.Reference

/-! References to tables, written out and read again. What reading leaves of a reference has no blanks or marks where
its text could be cut otherwise, with one exception: blanks are taken from a path before it is looked at, so the path
that is left may end in a bracket, and written out it stands too close to the two that close it. -/
namespace Tabletop.Reference
variable {text : String} {r : Reference}

private theorem read_eq_ok_iff_ofChars? : read text = .ok r ↔ ofChars? (Text.trimChars text.toList) = some r := by
  rw [read]
  cases ofChars? (Text.trimChars text.toList) <;> simp

theorem read_trim (h : read text = .ok r) : read (Text.trim text) = .ok r := by
  rw [read_eq_ok_iff_ofChars?] at h ⊢
  rw [Text.toList_trim, Text.trimChars_trimChars, h]

/-- What is known of a reference that was read. -/
structure Tidy (r : Reference) : Prop where
  count_pos : 0 < r.count
  count_le : r.count ≤ maxPicks
  path_ne : r.path.toList ≠ []
  path_trimmed : Text.trimChars r.path.toList = r.path.toList
  path_open : ¬ [']', ']'] <:+: r.path.toList
  block_ne : r.block.toList ≠ []
  block_lower : Text.lowerAfter [] r.block.toList = r.block.toList
  block_word : ∀ c ∈ r.block.toList, Text.isBlank c = false ∧ c ≠ '|'
  header : ∀ h ∈ r.header, h.toList ≠ [] ∧ Text.trimChars h.toList = h.toList

private theorem picks?_bounds {digits : List Char} {count : Nat} (h : picks? digits = some count) :
    0 < count ∧ count ≤ maxPicks := by
  rw [picks?] at h
  split at h
  · cases h
    decide
  · obtain ⟨hread, hpos⟩ := Option.filter_eq_some_iff.1 h
    exact ⟨of_decide_eq_true hpos, of_decide_eq_true (Option.filter_eq_some_iff.1 hread).2⟩

/-- The block and the header are cut at the first bar. -/
theorem bar_not_mem_of_split {rest block header : List Char}
    (h : (match Text.splitFirst? ['|'] rest with
      | some (block, header) => (block, Text.trimChars header)
      | none => (rest, [])) = (block, header)) :
    '|' ∉ block ∧ Text.trimChars header = header := by
  cases hsplit : Text.splitFirst? ['|'] rest with
  | some found =>
    obtain ⟨before, after⟩ := found
    rw [hsplit] at h
    cases h
    exact ⟨(Text.splitFirst?_singleton_eq_some_iff.1 hsplit).2, Text.trimChars_trimChars after⟩
  | none =>
    rw [hsplit] at h
    cases h
    have hbar := (Text.splitFirst?_eq_none_iff (List.cons_ne_nil '|' [])).1 hsplit
    rw [List.singleton_infix_iff] at hbar
    exact ⟨hbar, rfl⟩

private theorem tidy_of_ofChars? {cs : List Char} (h : ofChars? cs = some r) : r.Tidy := by
  obtain ⟨count, hcount, h⟩ := Option.bind_eq_some_iff.1 h
  obtain ⟨inside, -, h⟩ := Option.bind_eq_some_iff.1 h
  obtain ⟨⟨path, behind⟩, hpath, h⟩ := Option.bind_eq_some_iff.1 h
  obtain ⟨rest, -, h⟩ := Option.bind_eq_some_iff.1 h
  split at h
  rename_i block header hsplit
  obtain ⟨hbar, hheader⟩ := bar_not_mem_of_split hsplit
  dsimp only at h
  split at h
  · cases h
  · rename_i hwords
    cases h
    simp only [not_or, Bool.not_eq_true] at hwords
    obtain ⟨hpathne, hblockne, hblank⟩ := hwords
    have hclosed := (Text.splitFirst?_eq_some_iff (List.cons_ne_nil _ _)).1 hpath
    constructor
    · exact (picks?_bounds hcount).1
    · exact (picks?_bounds hcount).2
    · simpa using hpathne
    · simpa using Text.trimChars_trimChars path
    · simp only [String.toList_ofList]
      exact fun hmark => hclosed.2 ((hmark.trans (Text.trimChars_isInfix path)).trans (List.prefix_append _ _).isInfix)
    · simpa using hblockne
    · simpa using Text.lowerAfter_lowerAfter [] [] (Text.trimChars block)
    · simp only [String.toList_ofList]
      refine fun c hc => ⟨?_, ?_⟩
      · simpa using List.any_eq_false.1 hblank c hc
      · rintro rfl
        exact hbar (Text.mem_of_mem_trimChars (Text.bar_mem_of_mem_lowerAfter hc))
    · intro h hmem
      split at hmem
      · cases hmem
      · rename_i hne
        cases hmem
        simpa using ⟨hne, hheader⟩

theorem count_pos (h : read text = .ok r) : 0 < r.count := (tidy_of_ofChars? (read_eq_ok_iff_ofChars?.1 h)).count_pos

/-- The count as it is written: one is left out. -/
def countChars (r : Reference) : List Char := if r.count = 1 then [] else (toString r.count).toList

/-- The header as it is written, with its mark. -/
def headerChars (r : Reference) : List Char :=
  match r.header with
  | some header => '|' :: header.toList
  | none => []

private theorem toList_text (r : Reference) :
    r.text.toList = r.countChars ++ (['[', '['] ++ (r.path.toList ++ [']', ']'] ++
      (['^'] ++ (r.block.toList ++ r.headerChars)))) := by
  rw [Reference.text, countChars, headerChars]
  cases r.header <;> split <;> simp

private theorem Tidy.read_count (h : r.Tidy) : picks? r.countChars = some r.count := by
  rw [picks?, countChars]
  split
  · rename_i hone
    rw [if_pos rfl, hone]
  · rw [if_neg (Text.toString_ne_nil _), Text.readNatUpTo?_toString h.count_le, Option.filter,
      if_pos (decide_eq_true h.count_pos)]

private theorem isDigit_of_mem_countChars {c : Char} (h : c ∈ r.countChars) : Text.isDigit c = true := by
  rw [countChars] at h
  split at h
  · cases h
  · exact Text.isDigit_of_mem_toString h

private theorem Tidy.split_header (h : r.Tidy) :
    Text.splitFirst? ['|'] (r.block.toList ++ r.headerChars) =
      r.header.map fun header => (r.block.toList, header.toList) := by
  have hbar : '|' ∉ r.block.toList := fun hmem => (h.block_word _ hmem).2 rfl
  rw [headerChars]
  cases r.header with
  | some header =>
    rw [Option.map_some, Text.splitFirst?_singleton_eq_some_iff]
    exact ⟨rfl, hbar⟩
  | none =>
    rw [Option.map_none, Text.splitFirst?_eq_none_iff (List.cons_ne_nil _ _), List.singleton_infix_iff, List.append_nil]
    exact hbar

private theorem Tidy.trimChars_block (h : r.Tidy) : Text.trimChars r.block.toList = r.block.toList :=
  Text.trimChars_eq_self_iff.2 ⟨fun c hc => (h.block_word c (List.mem_of_mem_head? hc)).1,
    fun c hc => (h.block_word c (List.mem_of_mem_getLast? hc)).1⟩

private theorem Tidy.not_untidy (h : r.Tidy) :
    ¬ (r.path.toList = [] ∨ r.block.toList = [] ∨ r.block.toList.any Text.isBlank = true) := by
  rintro (hpath | hblock | hblank)
  · exact h.path_ne hpath
  · exact h.block_ne hblock
  · obtain ⟨c, hc, hblank⟩ := List.any_eq_true.1 hblank
    rw [(h.block_word c hc).1] at hblank
    cases hblank

/-- Two closing brackets behind a path are the first there are, unless the path ends in one of its own. -/
theorem Tidy.split_path (h : r.Tidy) (hpath : r.path.toList.getLast? ≠ some ']') (rest : List Char) :
    Text.splitFirst? [']', ']'] (r.path.toList ++ [']', ']'] ++ rest) = some (r.path.toList, rest) := by
  rw [Text.splitFirst?_eq_some_iff (List.cons_ne_nil _ _)]
  refine ⟨rfl, ?_⟩
  rintro ⟨front, back, hmark⟩
  rcases List.eq_nil_or_concat back with rfl | ⟨back, c, rfl⟩
  · have hend : (front ++ [']']) ++ [']'] = r.path.toList ++ [']'] := by simpa using hmark
    have hfront : front ++ [']'] = r.path.toList := List.append_cancel_right hend
    exact hpath (by rw [← hfront, List.getLast?_concat])
  · rw [List.concat_eq_append, ← List.append_assoc] at hmark
    exact h.path_open ⟨front, back, (List.append_inj' hmark rfl).1⟩

/-- Behind a bracket of the path's own, the first of the two that close it is taken for the second. -/
theorem Tidy.split_path_of_bracket (h : r.Tidy) (hpath : r.path.toList.getLast? = some ']') (rest : List Char) :
    ∃ path, Text.splitFirst? [']', ']'] (r.path.toList ++ [']', ']'] ++ rest) = some (path, ']' :: rest) := by
  obtain ⟨path, hfront⟩ := List.getLast?_eq_some_iff.1 hpath
  refine ⟨path, ?_⟩
  rw [Text.splitFirst?_eq_some_iff (List.cons_ne_nil _ _)]
  refine ⟨by simp [hfront], ?_⟩
  change ¬ [']', ']'] <:+: path ++ [']']
  rw [← hfront]
  exact h.path_open

private theorem Tidy.ofChars?_text (h : r.Tidy) :
    ofChars? r.text.toList = if r.path.toList.getLast? = some ']' then none else some r := by
  have hdigits : ∀ c ∈ r.countChars, Text.isDigit c = true := fun c => isDigit_of_mem_countChars
  have hbracket : Text.isDigit '[' = false := by decide
  have hcount (rest : List Char) : (r.countChars ++ (['[', '['] ++ rest)).takeWhile Text.isDigit = r.countChars := by
    simp [List.takeWhile_append_of_pos hdigits, hbracket]
  have hbehind (rest : List Char) :
      (r.countChars ++ (['[', '['] ++ rest)).dropWhile Text.isDigit = ['[', '['] ++ rest := by
    simp [List.dropWhile_append_of_pos hdigits, hbracket]
  have hstrip (mark rest : List Char) : Text.stripStart? mark (mark ++ rest) = some rest :=
    Text.stripStart?_eq_some_iff.2 rfl
  rw [toList_text, ofChars?, hcount, hbehind]
  simp only [Option.bind_eq_bind, h.read_count, Option.bind_some, hstrip]
  by_cases hpath : r.path.toList.getLast? = some ']'
  · obtain ⟨path, hsplit⟩ := h.split_path_of_bracket hpath (['^'] ++ (r.block.toList ++ r.headerChars))
    rw [hsplit, if_pos hpath]
    rfl
  · rw [h.split_path hpath, if_neg hpath, Option.bind_some, hstrip, Option.bind_some, h.split_header]
    cases hr : r.header with
    | some header =>
      obtain ⟨hne, htrim⟩ := h.header header hr
      simp only [Option.map_some, h.path_trimmed, h.trimChars_block, h.block_lower, htrim, if_neg h.not_untidy,
        if_neg hne, String.ofList_toList]
      rw [← hr]
      rfl
    | none =>
      simp only [Option.map_none, headerChars, hr, List.append_nil, h.path_trimmed, h.trimChars_block, h.block_lower,
        if_neg h.not_untidy, if_true, String.ofList_toList]
      rw [← hr]
      rfl

/-- A reference has no blanks around it when it is written out. -/
theorem Tidy.trimChars_text (h : r.Tidy) : Text.trimChars r.text.toList = r.text.toList := by
  rw [Text.trimChars_eq_self_iff, toList_text]
  refine ⟨?_, ?_⟩
  · cases hcount : r.countChars with
    | nil =>
      have hopen : Text.isBlank '[' = false := by decide
      simpa using hopen
    | cons digit digits =>
      have hdigit : Text.isDigit digit = true := isDigit_of_mem_countChars (hcount ▸ List.mem_cons_self)
      simp only [List.cons_append, List.head?_cons, Option.mem_def, Option.some.injEq]
      rintro c rfl
      rw [← Bool.not_eq_true]
      intro hblank
      rw [Text.isDigit_eq_false_of_isBlank hblank] at hdigit
      cases hdigit
  · have hend : r.block.toList ++ r.headerChars ≠ [] := fun hnil => h.block_ne (List.append_eq_nil_iff.1 hnil).1
    rw [List.getLast?_append_of_ne_nil _ (by simp), List.getLast?_append_of_ne_nil _ (by simp),
      List.getLast?_append_of_ne_nil _ (by simp), List.getLast?_append_of_ne_nil _ hend, headerChars]
    cases hheader : r.header with
    | none =>
      rw [List.append_nil]
      exact fun c hc => (h.block_word c (List.mem_of_mem_getLast? hc)).1
    | some header =>
      obtain ⟨hne, htrim⟩ := h.header header hheader
      rw [List.getLast?_append_of_ne_nil _ (by simp), List.getLast?_cons_of_ne_nil hne]
      exact (Text.trimChars_eq_self_iff.1 htrim).2

/-- A reference that was read is the one that is read from its own text, unless its path ends in a bracket: that text is
not a reference at all. -/
theorem read_text (h : read text = .ok r) :
    read r.text = if r.path.toList.getLast? = some ']' then .error (.badReference r.text) else .ok r := by
  have htidy := tidy_of_ofChars? (read_eq_ok_iff_ofChars?.1 h)
  rw [read, htidy.trimChars_text, htidy.ofChars?_text]
  by_cases hpath : r.path.toList.getLast? = some ']'
  · rw [if_pos hpath, if_pos hpath]
  · rw [if_neg hpath, if_neg hpath]

theorem read_text_weapons :
    read " 3[[ Loot ]]^ Weapons | Name " = .ok ⟨3, "Loot", "weapons", some "Name"⟩ ∧
      read "3[[Loot]]^weapons|Name" = .ok ⟨3, "Loot", "weapons", some "Name"⟩ := by
  have hread : read " 3[[ Loot ]]^ Weapons | Name " = .ok ⟨3, "Loot", "weapons", some "Name"⟩ := by decide +kernel
  exact ⟨hread, read_text hread⟩

/-- The path of this one ends in a bracket, behind which a blank was. -/
theorem not_read_text :
    read "[[a] ]]^b" = .ok ⟨1, "a]", "b", none⟩ ∧ Reference.text ⟨1, "a]", "b", none⟩ = "[[a]]]^b" ∧
      read "[[a]]]^b" = .error (.badReference "[[a]]]^b") := by decide +kernel

end Tabletop.Reference
