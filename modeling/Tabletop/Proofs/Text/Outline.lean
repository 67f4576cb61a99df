import Tabletop.Text.Outline

/-! Laying out a trace changes its layout alone. Line breaks stand around the characters that open, close and divide, and
whether one stands there is read off the text in front: the parentheses that are open, and the bars it ends in. -/
namespace Tabletop.Text

/-- Line breaks and tabs. -/
def isLayout (c : Char) : Bool := c == '\n' || c == '\t'

/-- A character as it is shown. -/
def outlined (c : Char) : Char := if c = ';' then ',' else c

/-- How many parentheses are open at the end of a text. One that closes nothing is not counted. -/
def openParens (cs : List Char) : Nat :=
  cs.foldl (fun depth c => if c = '(' then depth + 1 else if c = ')' then depth - 1 else depth) 0

/-- How many bars a text ends in. -/
def barsAtEnd (cs : List Char) : Nat := (cs.reverse.takeWhile (· == '|')).length

/-- Whether a text ends in something that a line break follows. Bars are paired from the left of their run, so the last
one ends a pair when there is an even number of them. -/
def breaksAfter (cs : List Char) : Bool :=
  match cs.getLast? with
  | some '(' | some ';' => true
  | some '|' => barsAtEnd cs % 2 == 0
  | _ => false

/-- A character behind a text, with its line breaks. -/
def placed (front : List Char) (c : Char) : List Char :=
  let text := front ++ [c]
  (if c = ')' then lineBreak (openParens text) else []) ++
    outlined c :: (if breaksAfter text then lineBreak (openParens text) else [])

/-- The line breaks of a text: for each the number of characters before it that are no layout, and the number of tabs right
behind it. -/
def lineBreaks : (before : Nat) → List Char → List (Nat × Nat)
  | _, [] => []
  | before, c :: cs =>
    if c = '\n' then (before, (cs.takeWhile (· == '\t')).length) :: lineBreaks before cs
    else lineBreaks (if isLayout c then before else before + 1) cs

/-- The line breaks around a character behind a text. -/
def breaksAround (front : List Char) (c : Char) : List (Nat × Nat) :=
  let text := front ++ [c]
  (if c = ')' then [(front.length, openParens text)] else []) ++
    (if breaksAfter text then [(text.length, openParens text)] else [])

/-- The characters behind a text, each with its line breaks. -/
def placedAll : (front : List Char) → List Char → List Char
  | _, [] => []
  | front, c :: cs => placed front c ++ placedAll (front ++ [c]) cs

private theorem openParens_concat (front : List Char) (c : Char) :
    openParens (front ++ [c]) =
      if c = '(' then openParens front + 1 else if c = ')' then openParens front - 1 else openParens front := by
  rw [openParens, List.foldl_append]
  rfl

private theorem barsAtEnd_concat (front : List Char) (c : Char) :
    barsAtEnd (front ++ [c]) = if c = '|' then barsAtEnd front + 1 else 0 := by
  rw [barsAtEnd, List.reverse_append]
  change (List.takeWhile (· == '|') (c :: front.reverse)).length = _
  rw [List.takeWhile_cons]
  by_cases hc : c = '|'
  · simp [hc, barsAtEnd]
  · simp [hc]

private theorem breaksAfter_concat (front : List Char) (c : Char) :
    breaksAfter (front ++ [c]) =
      (c == '(' || c == ';' || (c == '|' && (barsAtEnd front + 1) % 2 == 0)) := by
  rw [breaksAfter, List.getLast?_concat]
  split
  · simp_all
  · simp_all
  · simp_all [barsAtEnd_concat]
  · simp_all

/-- Only a parenthesis changes the depth. -/
theorem placed_eq (front : List Char) (c : Char) :
    placed front c =
      (if c = ')' then lineBreak (openParens front - 1) else []) ++
        outlined c ::
          if c = '(' then lineBreak (openParens front + 1)
          else if c = ';' ∨ c = '|' ∧ (barsAtEnd front + 1) % 2 = 0 then lineBreak (openParens front)
          else [] := by
  rw [placed, breaksAfter_concat, openParens_concat]
  by_cases hopen : c = '('
  · simp [hopen]
  · by_cases hclose : c = ')'
    · simp [hclose]
    · simp [hopen, hclose]

/-- Text is laid out from where no pair of bars is split. -/
theorem outlineFrom_eq_placedAll (front : List Char) {cs : List Char}
    (hbars : barsAtEnd front % 2 = 0 ∨ cs.head? ≠ some '|') :
    outlineFrom (openParens front) cs = placedAll front cs := by
  generalize hdepth : openParens front = depth
  fun_induction outlineFrom depth cs generalizing front with
  | case1 => rfl
  | case2 depth cs ih =>
    have hrest := ih (front ++ ['(']) (by simp [barsAtEnd_concat]) (by simp [openParens_concat, hdepth])
    simp [placedAll, placed_eq, outlined, hrest, hdepth]
  | case3 depth cs ih =>
    have hrest := ih (front ++ [')']) (by simp [barsAtEnd_concat]) (by simp [openParens_concat, hdepth])
    simp [placedAll, placed_eq, outlined, hrest, hdepth]
  | case4 depth cs ih =>
    have hrest := ih (front ++ [';']) (by simp [barsAtEnd_concat]) (by simp [openParens_concat, hdepth])
    simp [placedAll, placed_eq, outlined, hrest, hdepth]
  | case5 depth cs ih =>
    have heven : barsAtEnd front % 2 = 0 := hbars.resolve_right (by simp)
    have hsplit : (barsAtEnd front + 1) % 2 ≠ 0 := by omega
    have hpaired : (barsAtEnd front + 1 + 1) % 2 = 0 := by omega
    have hdepths : openParens (front ++ ['|']) = depth ∧ openParens (front ++ ['|'] ++ ['|']) = depth := by
      simp only [openParens_concat, Char.reduceEq, if_false, hdepth, and_self]
    have hbars' : barsAtEnd (front ++ ['|'] ++ ['|']) = barsAtEnd front + 1 + 1 := by
      simp only [barsAtEnd_concat, if_true]
    rw [placedAll, placedAll, ← ih _ (.inl (hbars' ▸ hpaired)) hdepths.2, placed_eq, placed_eq, barsAtEnd_concat, hdepths.1]
    simp [outlined, hsplit, hpaired]
  | case6 depth c cs hopen hclose hsemicolon hpair ih =>
    have hdepth' : openParens (front ++ [c]) = depth := by
      rw [openParens_concat, if_neg hopen, if_neg hclose, hdepth]
    have hlone : ¬(c = '|' ∧ (barsAtEnd front + 1) % 2 = 0) := by
      rintro ⟨rfl, hodd⟩
      have heven : barsAtEnd front % 2 = 0 := hbars.resolve_right (by simp)
      omega
    have hrest : barsAtEnd (front ++ [c]) % 2 = 0 ∨ cs.head? ≠ some '|' := by
      rw [barsAtEnd_concat]
      by_cases hbar : c = '|'
      · refine .inr fun hhead => ?_
        obtain ⟨cs', rfl⟩ := List.head?_eq_some_iff.1 hhead
        exact hpair cs' hbar rfl
      · exact .inl (by rw [if_neg hbar])
    rw [placedAll, ← ih _ hrest hdepth', placed_eq, if_neg hclose, if_neg hopen, if_neg (not_or.2 ⟨hsemicolon, hlone⟩),
      outlined, if_neg hsemicolon]
    rfl

/-- The characters of a text in their places. -/
theorem placedAll_eq_flatMap (front cs : List Char) :
    placedAll front cs = (cs.zipIdx front.length).flatMap fun p => placed ((front ++ cs).take p.2) p.1 := by
  induction cs generalizing front with
  | nil => rfl
  | cons c cs ih =>
    rw [placedAll, ih, List.zipIdx_cons, List.flatMap_cons, List.take_left, List.length_append, List.append_assoc]
    rfl

private theorem isLayout_outlined (c : Char) : isLayout (outlined c) = isLayout c := by
  rw [outlined]
  split
  · subst c
    decide
  · rfl

private theorem filter_lineBreak (depth : Nat) : (lineBreak depth).filter (!isLayout ·) = [] := by
  rw [List.filter_eq_nil_iff]
  intro c hc
  rcases List.mem_cons.1 hc with rfl | hc
  · decide
  · rw [List.eq_of_mem_replicate hc]
    decide

/-- Laying out adds nothing but layout. -/
theorem filter_placedAll (front cs : List Char) :
    (placedAll front cs).filter (!isLayout ·) = (cs.filter (!isLayout ·)).map outlined := by
  have hbreak (p : Prop) [Decidable p] (depth : Nat) :
      (if p then lineBreak depth else []).filter (!isLayout ·) = [] := by
    split
    · exact filter_lineBreak depth
    · rfl
  induction cs generalizing front with
  | nil => rfl
  | cons c cs ih =>
    rw [placedAll, List.filter_append, ih, placed, List.filter_append, hbreak, List.filter_cons, List.filter_cons,
      hbreak, isLayout_outlined]
    cases isLayout c <;> rfl

private theorem outlined_ne_layout {c : Char} (h : isLayout c = false) : outlined c ≠ '\n' ∧ outlined c ≠ '\t' := by
  rw [← isLayout_outlined, isLayout, Bool.or_eq_false_iff, beq_eq_false_iff_ne, beq_eq_false_iff_ne] at h
  exact h

private theorem lineBreaks_cons (before : Nat) {c : Char} (h : isLayout c = false) (rest : List Char) :
    lineBreaks before (outlined c :: rest) = lineBreaks (before + 1) rest := by
  rw [lineBreaks, if_neg (outlined_ne_layout h).1, isLayout_outlined, h]
  rfl

private theorem lineBreaks_tabs (before depth : Nat) (rest : List Char) :
    lineBreaks before (List.replicate depth '\t' ++ rest) = lineBreaks before rest := by
  induction depth with
  | zero => rfl
  | succ depth ih =>
    rw [List.replicate_succ, List.cons_append, lineBreaks, if_neg (by decide)]
    exact ih

private theorem lineBreaks_lineBreak (before depth : Nat) {rest : List Char} (h : rest.head? ≠ some '\t') :
    lineBreaks before (lineBreak depth ++ rest) = (before, depth) :: lineBreaks before rest := by
  have hnone : rest.takeWhile (· == '\t') = [] := by
    cases rest with
    | nil => rfl
    | cons c rest => exact List.takeWhile_cons_of_neg (by simpa using h)
  rw [lineBreak, List.cons_append, lineBreaks, if_pos rfl, lineBreaks_tabs,
    List.takeWhile_append_of_pos (by simp), List.length_append, hnone, List.length_replicate, List.length_nil]
  rfl

private theorem head?_outlined_cons {c : Char} (h : isLayout c = false) (rest : List Char) :
    (outlined c :: rest).head? ≠ some '\t' := fun he => (outlined_ne_layout h).2 (Option.some.inj he)

private theorem head?_placed_append {c : Char} (h : isLayout c = false) (front rest : List Char) :
    (placed front c ++ rest).head? ≠ some '\t' := by
  rw [placed, List.append_assoc]
  split
  · nofun
  · exact head?_outlined_cons h _

private theorem lineBreaks_placed {front rest : List Char} {c : Char} (h : isLayout c = false)
    (hrest : rest.head? ≠ some '\t') :
    lineBreaks front.length (placed front c ++ rest) =
      breaksAround front c ++ lineBreaks (front ++ [c]).length rest := by
  let text := front ++ [c]
  have hlength : front.length + 1 = text.length := by rw [List.length_append, List.length_singleton]
  have hbehind : lineBreaks text.length ((if breaksAfter text then lineBreak (openParens text) else []) ++ rest) =
      (if breaksAfter text then [(text.length, openParens text)] else []) ++ lineBreaks text.length rest := by
    split
    · exact lineBreaks_lineBreak _ _ hrest
    · rfl
  rw [placed, breaksAround, List.append_assoc, List.append_assoc, List.cons_append, ← hbehind, ← hlength]
  split
  · rw [lineBreaks_lineBreak _ _ (head?_outlined_cons h _), lineBreaks_cons _ h]
    rfl
  · exact lineBreaks_cons _ h _

/-- Without layout in the text itself, its line breaks are those that laying out put there. -/
theorem lineBreaks_placedAll (front : List Char) {cs : List Char} (h : ∀ c ∈ cs, isLayout c = false) :
    lineBreaks front.length (placedAll front cs) =
      (cs.zipIdx front.length).flatMap fun p => breaksAround ((front ++ cs).take p.2) p.1 := by
  induction cs generalizing front with
  | nil => rfl
  | cons c cs ih =>
    obtain ⟨hc, hcs⟩ := List.forall_mem_cons.1 h
    have hhead : (placedAll (front ++ [c]) cs).head? ≠ some '\t' := by
      cases cs with
      | nil => nofun
      | cons d cs => exact head?_placed_append (hcs d List.mem_cons_self) _ _
    rw [placedAll, lineBreaks_placed hc hhead, ih _ hcs, List.zipIdx_cons, List.flatMap_cons, List.take_left,
      List.length_append, List.append_assoc]
    rfl

/-- Laying out a text, whatever is in it: every character stays, a semicolon as a comma, and gets the line breaks that go
with it, one before a closing parenthesis and one behind an opening parenthesis, a semicolon or a pair of bars, each with a
tab for every parenthesis that is open there. Without line breaks and tabs, that gives back the text without its own. And
if it has none of its own, these are all the line breaks there are. -/
theorem outline_breaks (s : String) :
    (outline s).toList = s.toList.zipIdx.flatMap (fun p => placed (s.toList.take p.2) p.1) ∧
    (outline s).toList.filter (!isLayout ·) = (s.toList.filter (!isLayout ·)).map outlined ∧
    ((∀ c ∈ s.toList, isLayout c = false) →
      lineBreaks 0 (outline s).toList = s.toList.zipIdx.flatMap fun p => breaksAround (s.toList.take p.2) p.1) := by
  have hplaced : (outline s).toList = placedAll [] s.toList := by
    rw [outline, String.toList_ofList]
    exact outlineFrom_eq_placedAll [] (.inl rfl)
  rw [hplaced]
  exact ⟨placedAll_eq_flatMap [] _, filter_placedAll [] _, lineBreaks_placedAll []⟩

/-- Of three bars the first two are a pair, and the second closing parenthesis has nothing to close. -/
theorem outline_breaks_bars :
    let s := "x(a|||b)); y"
    (∀ c ∈ s.toList, isLayout c = false) ∧
      (outline s).toList.filter (!isLayout ·) = "x(a|||b)), y".toList ∧
      lineBreaks 0 (outline s).toList = [(2, 1), (5, 1), (7, 0), (8, 0), (10, 0)] := by
  intro s
  have hall : s.toList.all (fun c => isLayout c == false) = true := by decide +kernel
  have hplain : ∀ c ∈ s.toList, isLayout c = false := fun c hc => eq_of_beq (List.all_eq_true.1 hall c hc)
  obtain ⟨-, hshown, hbreaks⟩ := outline_breaks s
  exact ⟨hplain, hshown.trans (by decide +kernel), (hbreaks hplain).trans (by decide +kernel)⟩

end Tabletop.Text
