import Mathlib.Data.List.Infix
import Tabletop.Text.Split

/-! Texts cut at marks and into lines. A cut at a mark is the first there is: what stands before it, with all but the
end of the mark, does not have the mark in it. -/
namespace Tabletop.Text
variable {mark cs before after : List Char}

theorem stripStart?_eq_some_iff : stripStart? mark cs = some after ↔ cs = mark ++ after := by
  induction mark generalizing cs with
  | nil => simp [stripStart?, eq_comm]
  | cons p ps ih =>
    cases cs with
    | nil => simp [stripStart?]
    | cons c cs =>
      rw [stripStart?, List.cons_append, List.cons.injEq]
      split
      · rename_i hpc
        simp [ih, hpc]
      · rename_i hpc
        simp [Ne.symm hpc]

private theorem stripStart?_eq_none_iff : stripStart? mark cs = none ↔ ¬ mark <+: cs := by
  have h (rest : List Char) : stripStart? mark cs ≠ some rest ↔ ¬ mark ++ rest = cs := by
    rw [ne_eq, stripStart?_eq_some_iff, eq_comm]
  rw [Option.eq_none_iff_forall_ne_some, List.prefix_iff_exists_append_eq, not_exists]
  exact forall_congr' h

theorem not_infix_dropLast (h : mark ≠ []) : ¬ mark <:+: mark.dropLast := by
  intro hmark
  have hlength := hmark.length_le
  have hpos := List.length_pos_iff.2 h
  rw [List.length_dropLast] at hlength
  omega

private theorem append_dropLast_isPrefix (before mark after : List Char) :
    before ++ mark.dropLast <+: before ++ mark ++ after := by
  rw [List.append_assoc, List.prefix_append_right_inj]
  exact (List.dropLast_prefix mark).trans (List.prefix_append mark after)

/-- A mark in front of a text that has another copy further on ends before that copy does. -/
theorem prefix_append_dropLast (h : before ≠ []) (hmark : mark <+: before ++ mark ++ after) :
    mark <+: before ++ mark.dropLast := by
  refine List.prefix_of_prefix_length_le hmark (append_dropLast_isPrefix before mark after) ?_
  have hpos := List.length_pos_iff.2 h
  rw [List.length_append, List.length_dropLast]
  omega

theorem splitFirst?_eq_some_iff (hmark : mark ≠ []) :
    splitFirst? mark cs = some (before, after) ↔
      cs = before ++ mark ++ after ∧ ¬ mark <:+: before ++ mark.dropLast := by
  induction cs generalizing before with
  | nil =>
    obtain ⟨m, ms, rfl⟩ := List.exists_cons_of_ne_nil hmark
    simp [splitFirst?, stripStart?]
  | cons c cs ih =>
    rw [splitFirst?]
    cases hstart : stripStart? mark (c :: cs) with
    | some rest =>
      rw [stripStart?_eq_some_iff] at hstart
      constructor
      · rintro ⟨⟩
        exact ⟨hstart, not_infix_dropLast hmark⟩
      · rintro ⟨hcs, hfirst⟩
        have hbefore : before = [] := by
          by_contra hne
          have hfront : mark <+: before ++ mark ++ after := by
            rw [← hcs, hstart]
            exact List.prefix_append mark rest
          exact hfirst (prefix_append_dropLast hne hfront).isInfix
        subst hbefore
        rw [hcs, List.nil_append, List.append_cancel_left_eq] at hstart
        rw [hstart]
    | none =>
      rw [stripStart?_eq_none_iff] at hstart
      cases before with
      | nil =>
        refine iff_of_false (by simp) fun h => hstart ?_
        rw [h.1]
        exact List.prefix_append mark after
      | cons b before =>
        have hcut : (splitFirst? mark cs).map (Prod.map (List.cons c) id) = some (b :: before, after) ↔
            c = b ∧ splitFirst? mark cs = some (before, after) := by
          simp [and_left_comm]
        change (splitFirst? mark cs).map (Prod.map (List.cons c) id) = some (b :: before, after) ↔ _
        rw [hcut, ih, List.cons_append, List.cons_append, List.cons_append, List.cons.injEq, List.infix_cons_iff,
          not_or, and_assoc]
        refine and_congr_right fun hc => and_congr_right fun hcs => (and_iff_right fun hfront => hstart ?_).symm
        rw [hc, hcs]
        exact hfront.trans (append_dropLast_isPrefix (b :: before) mark after)

theorem splitFirst?_eq_none_iff (hmark : mark ≠ []) : splitFirst? mark cs = none ↔ ¬ mark <:+: cs := by
  induction cs with
  | nil =>
    obtain ⟨m, ms, rfl⟩ := List.exists_cons_of_ne_nil hmark
    simp [splitFirst?, stripStart?]
  | cons c cs ih =>
    rw [splitFirst?, List.infix_cons_iff, not_or, ← ih, ← stripStart?_eq_none_iff]
    cases stripStart? mark (c :: cs) <;> simp

/-- A mark whose first character does not come back in it cannot overlap itself. -/
theorem infix_append_dropLast_iff {m : Char} {ms : List Char} (hm : m ∉ ms) :
    m :: ms <:+: before ++ (m :: ms).dropLast ↔ m :: ms <:+: before := by
  have hshort : ¬ m :: ms <:+: (m :: ms).dropLast := not_infix_dropLast (List.cons_ne_nil m ms)
  refine ⟨?_, fun h => h.trans (List.prefix_append _ _).isInfix⟩
  rintro ⟨front, back, h⟩
  rw [List.append_assoc, List.append_eq_append_iff] at h
  obtain ⟨inside, rfl, h⟩ | ⟨past, -, h⟩ := h
  · obtain ⟨behind, rfl, -⟩ | ⟨overlap, hmark, hoverlap⟩ := List.append_eq_append_iff.1 h
    · exact ⟨front, behind, List.append_assoc _ _ _⟩
    · cases overlap with
      | nil => exact ⟨front, [], by rw [hmark, List.append_nil, List.append_nil]⟩
      | cons c overlap =>
        -- the mark in the text would have its own first character where the copy behind begins
        obtain rfl : c = m := by
          have hhead : (m :: ms).dropLast <+: m :: ms := List.dropLast_prefix (m :: ms)
          rw [hoverlap, List.cons_append, List.cons_prefix_cons] at hhead
          exact hhead.1
        cases inside with
        | nil => exact (hshort ⟨[], back, h⟩).elim
        | cons d inside =>
          rw [List.cons_append, List.cons.injEq] at hmark
          exact (hm (hmark.2 ▸ List.mem_append_right inside List.mem_cons_self)).elim
  · exact (hshort ⟨past, back, by rw [h, List.append_assoc]⟩).elim

theorem splitFirst?_singleton_eq_some_iff {c : Char} :
    splitFirst? [c] cs = some (before, after) ↔ cs = before ++ c :: after ∧ c ∉ before := by
  rw [splitFirst?_eq_some_iff (List.cons_ne_nil c []), List.append_assoc, List.dropLast_singleton, List.append_nil,
    List.singleton_infix_iff, List.singleton_append]

/-- No mark begins before the one at which a text is cut. -/
theorem suffix_of_splitFirst? {front back : List Char} (hmark : mark ≠ [])
    (h : splitFirst? mark cs = some (before, after)) (hcs : cs = front ++ mark ++ back) : back <:+ after := by
  obtain ⟨hfirst, hnone⟩ := (splitFirst?_eq_some_iff hmark).1 h
  have hlength : (before ++ mark ++ after).length = (front ++ mark ++ back).length := by rw [← hfirst, hcs]
  simp only [List.length_append] at hlength
  have hfront : front ++ mark <+: cs := hcs ▸ List.prefix_append (front ++ mark) back
  have hle : before.length ≤ front.length := by
    by_contra hlt
    refine hnone (.trans (List.suffix_append front mark).isInfix (List.IsPrefix.isInfix ?_))
    refine List.prefix_of_prefix_length_le hfront (hfirst ▸ append_dropLast_isPrefix before mark after) ?_
    simp only [List.length_append, List.length_dropLast]
    omega
  refine List.suffix_of_suffix_length_le (hcs ▸ List.suffix_append _ back) (hfirst ▸ List.suffix_append _ after) ?_
  omega

theorem splitBy_eq_splitOnP (p : Char → Bool) (cs : List Char) : splitBy p cs = cs.splitOnP p := by
  induction cs with
  | nil => rw [splitBy, List.splitOnP_nil]
  | cons c cs ih =>
    obtain ⟨part, parts, hparts⟩ := List.exists_cons_of_ne_nil (List.splitOnP_ne_nil p cs)
    rw [splitBy, List.splitOnP_cons_eq_if_modifyHead, ih, hparts]
    rfl

theorem splitOn_eq_splitOn (c : Char) (cs : List Char) : splitOn c cs = cs.splitOn c := by
  rw [splitOn, splitBy_eq_splitOnP, List.splitOn_eq_splitOnP]

theorem splitBy_concat {p : Char → Bool} {c : Char} (hc : p c = true) (cs : List Char) :
    splitBy p (cs ++ [c]) = splitBy p cs ++ [[]] := by
  rw [splitBy_eq_splitOnP, splitBy_eq_splitOnP, List.splitOnP_append_cons _ _ hc, List.splitOnP_nil]

theorem dropReturn_of_getLast? {line : List Char} (h : line.getLast? ≠ some '\r') : dropReturn line = line := if_neg h

/-- Lines that do not end in a carriage return are themselves, with or without an end of the last. -/
theorem endLines_of_getLast? {ls : List (List Char)} (h : ∀ l ∈ ls, l ≠ [] ∧ l.getLast? ≠ some '\r') :
    endLines ls = ls := by
  induction ls with
  | nil => rfl
  | cons l ls ih =>
    obtain ⟨⟨hne, hlast⟩, hrest⟩ := List.forall_mem_cons.1 h
    cases ls with
    | nil => rw [endLines, if_neg (by simpa using hne)]
    | cons l' ls =>
      rw [endLines, dropReturn_of_getLast? hlast, ih hrest]
      simp

/-- Where the last line is ended as well, an ended line is all that there is. -/
theorem endLines_concat_nil (ls : List (List Char)) : endLines (ls ++ [[]]) = ls.map dropReturn := by
  induction ls with
  | nil => rfl
  | cons l ls ih =>
    rw [List.cons_append, List.map_cons, ← ih]
    cases ls <;> rfl

end Tabletop.Text
