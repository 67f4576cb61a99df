import Tabletop.Proofs.Expression.Average
import Tabletop.Proofs.Expression.History
import Tabletop.Proofs.Text.Pieces

/-! The text of a result. It is the formula with what its group shows in the place of each operand and all that is
attached to it, and otherwise unchanged. -/
namespace Tabletop

namespace Text.Span

private theorem foldl_upTo_cons (s t : Span) (ss : List Span) : (t :: ss).foldl upTo s = s.upTo (ss.foldl upTo t) := by
  induction ss generalizing t with
  | nil => rfl
  | cons u ss ih => exact ih (t.upTo u)

private theorem le_stop_foldl_upTo {n : Nat} {t : Span} {ss : List Span} (h : ∀ u ∈ t :: ss, n ≤ u.stop) :
    n ≤ (ss.foldl upTo t).stop := by
  induction ss generalizing t with
  | nil => exact h t List.mem_cons_self
  | cons u ss ih =>
    refine ih fun v hv => ?_
    rcases List.mem_cons.1 hv with rfl | hv
    · exact h u (by simp)
    · exact h v (by simp [hv])

/-- What is behind several spans in order is behind all of them joined. -/
theorem pairwise_foldl_upTo {s : Span} {ss ts : List Span} (h : (s :: (ss ++ ts)).Pairwise (·.stop ≤ ·.stop)) :
    (ss.foldl upTo s :: ts).Pairwise (·.stop ≤ ·.stop) := by
  induction ss generalizing s with
  | nil => exact h
  | cons t ss ih =>
    have hbehind : (t :: (ss ++ ts)).Pairwise (·.stop ≤ ·.stop) := (List.pairwise_cons.1 h).2
    exact ih (List.pairwise_cons.2 (List.pairwise_cons.1 hbehind))

end Text.Span

namespace Grammar
open Text (Span Coarser)

/-- From the start of an operand to the end of the last condition or modifier attached to it. -/
def Operand.extent (o : Operand) : Span := (o.lexemes.map (·.span)).foldl Span.upTo o.span

private theorem reach_eq_foldl (span : Span) (cs : List PlacedCondition) :
    reach span cs = (cs.map (·.span)).foldl Span.upTo span := by
  rw [List.foldl_map]
  rfl

private theorem Suffix.map_span_lexemes (s : Suffix) :
    s.lexemes.map (·.span) = s.span :: s.conditions.map (·.span) := by
  simp [lexemes, PlacedCondition.lexeme]

/-- A modifier behind a group widens the group's span up to its last condition. -/
theorem Suffix.attach_span (s : Suffix) (g : PlacedGroup)
    (h : ∀ t ∈ s.lexemes.map (·.span), g.span.stop ≤ t.stop) :
    (g.attach s.placed).span = (s.lexemes.map (·.span)).foldl Span.upTo g.span := by
  rw [map_span_lexemes] at h ⊢
  have hstop := Text.Span.le_stop_foldl_upTo h
  rw [Text.Span.foldl_upTo_cons, PlacedGroup.attach, Suffix.placed, reach_eq_foldl, Nat.max_eq_right hstop, Span.upTo]

private theorem foldl_attach_span (ss : List Suffix) (g : PlacedGroup)
    (h : (g.span :: (ss.flatMap Suffix.lexemes).map (·.span)).Pairwise (·.stop ≤ ·.stop)) :
    ((ss.map Suffix.placed).foldl PlacedGroup.attach g).span =
      ((ss.flatMap Suffix.lexemes).map (·.span)).foldl Span.upTo g.span := by
  induction ss generalizing g with
  | nil => rfl
  | cons s ss ih =>
    rw [List.flatMap_cons, List.map_append] at h ⊢
    have hspan := s.attach_span g fun t ht =>
      List.rel_of_pairwise_cons h (List.mem_append_left _ ht)
    rw [List.map_cons, List.foldl_cons, List.foldl_append, ← hspan]
    exact ih _ (hspan ▸ Span.pairwise_foldl_upTo h)

private theorem Operand.map_span_lexemes (o : Operand) :
    o.lexemes.map (·.span) =
      o.span :: (o.head.conditions.map (·.span) ++ (o.suffixes.flatMap Suffix.lexemes).map (·.span)) := by
  simp [lexemes, PlacedCondition.lexeme]

/-- Where lexemes stand in order, the group of an operand stands for all of its text. -/
theorem Operand.placed_span (o : Operand) (h : (o.lexemes.map (·.span)).Pairwise (·.stop ≤ ·.stop)) :
    o.placed.span = o.extent := by
  rw [map_span_lexemes] at h
  have hhead := Span.pairwise_foldl_upTo h
  rw [← reach_eq_foldl] at hhead
  rw [extent, map_span_lexemes, List.foldl_cons, List.foldl_append, Span.upTo, ← reach_eq_foldl, placed]
  exact foldl_attach_span o.suffixes ⟨o.head.group, reach o.span o.head.conditions⟩ hhead

private theorem Operand.coarser (o : Operand) : Coarser (o.lexemes.map (·.span)) [o.extent] := by
  rw [extent, map_span_lexemes]
  exact .joinAll o.span _

/-- The operands of a phrase, with what is attached to them, are some of its lexemes joined. -/
theorem Phrase.coarser (p : Phrase) : Coarser (p.lexemes.map (·.span)) (p.operands.map Operand.extent) := by
  induction p with
  | operand o => exact o.coarser
  | parens opened closed p ih =>
    have hclosed : Coarser [closed] [] := .drop closed .nil
    simpa [lexemes, operands] using Coarser.drop opened (ih.append hclosed)
  | plus sign p ih => exact .drop sign ih
  | negate sign p ih => exact .drop sign ih
  | binary op sign l r ihl ihr => simpa [lexemes, operands] using ihl.append (.drop sign ihr)

private theorem Phrase.lexemes_sublist {p : Phrase} {o : Operand} (h : o ∈ p.operands) :
    o.lexemes.Sublist p.lexemes := by
  induction p with
  | operand q =>
    rw [List.mem_singleton.1 h]
    exact .refl _
  | parens opened closed p ih => exact ((ih h).trans (List.sublist_append_left _ _)).cons _
  | plus sign p ih => exact (ih h).cons _
  | negate sign p ih => exact (ih h).cons _
  | binary op sign l r ihl ihr =>
    rcases List.mem_append.1 h with h | h
    · exact (ihl h).trans (List.sublist_append_left _ _)
    · exact ((ihr h).cons _).trans (List.sublist_append_right _ _)

end Grammar

/-- What is read, cut at the operands of its phrase, with the groups that they are. -/
theorem Formula.exists_pieces_of_read {text : String} {f : Formula} (h : Formula.read text = .ok f) :
    ∃ (p : Grammar.Phrase) (t : Calculation) (c : Text.Pieces),
      Grammar.Derives .sum p ∧ p.lexemes = Lexeme.scan text ∧ f = ⟨text, t.tokens⟩ ∧
        t.groups = p.operands.map Grammar.Operand.placed ∧ c.text = text.toList ∧
        c.spans 0 = p.operands.map Grammar.Operand.extent ∧ c.spans 0 = t.groups.map (·.span) := by
  obtain ⟨p, t, hp, hlex, hf, hgroups⟩ := exists_phrase_of_read h
  have htiles := Lexeme.scan_tiles text
  obtain ⟨d, hd, hspans⟩ := htiles.exists_pieces
  obtain ⟨c, hc, hcut⟩ := p.coarser.exists_pieces d 0 (hlex ▸ hspans)
  have hordered : (p.lexemes.map (·.span)).Pairwise (·.stop ≤ ·.stop) := by
    rw [List.pairwise_map, hlex]
    refine htiles.pairwise.imp_of_mem fun {l m} hl hm hbehind => ?_
    have hvisible : m.span.start < m.span.stop := by
      simpa [Text.Span.isEmpty] using Lexeme.scan_span_nonempty hm (p.ne_invalid m (hlex ▸ hm))
    exact Nat.le_trans hbehind (Nat.le_of_lt hvisible)
  refine ⟨p, t, c, hp, hlex, hf, hgroups, hc.trans hd, hcut, ?_⟩
  rw [hcut, hgroups, List.map_map]
  refine List.map_congr_left fun o ho => ?_
  exact (o.placed_span (hordered.sublist ((Grammar.Phrase.lexemes_sublist ho).map _))).symm

namespace Expression
variable {σ : Type} [RandomSource σ]

/-- Groups that stand for the words of a text are shown in the places of these. -/
theorem resultsFrom_pieces (c : Text.Pieces) (before : List Char) (gs : List PlacedGroup)
    (h : c.spans (Text.byteLength before) = gs.map (·.span)) :
    resultsFrom (before ++ c.text) (Text.byteLength before) gs = c.replace (gs.map (·.group.text.toList)) := by
  induction c generalizing before gs with
  | last gap =>
    obtain rfl : gs = [] := List.map_eq_nil_iff.1 h.symm
    rw [resultsFrom, Text.dropBytes?_append]
    rfl
  | word gap w visible rest ih =>
    cases gs with
    | nil => cases h
    | cons g gs =>
      obtain ⟨group, span⟩ := g
      obtain ⟨rfl, hrest⟩ := List.cons_eq_cons.1 h
      have hword := Lexeme.byteLength_pos visible
      have hgap := Text.slice?_behind before gap (w ++ rest.text)
      rw [Text.Span.behind, Nat.zero_add, List.append_assoc, ← List.append_assoc gap] at hgap
      have hbefore : Text.byteLength before + Text.byteLength gap + Text.byteLength w =
          Text.byteLength (before ++ gap ++ w) := by
        rw [Text.byteLength_append, Text.byteLength_append]
      have hbehind : before ++ (gap ++ w ++ rest.text) = before ++ gap ++ w ++ rest.text := by simp
      rw [hbefore] at hrest
      rw [resultsFrom, Text.Span.behind, if_neg (by simp [Text.Span.isEmpty]; omega)]
      simp only [Text.Pieces.text, hgap]
      rw [hbefore, hbehind, ih _ gs hrest]
      rfl

/-- After a roll that succeeds, the formula has what the groups show in the places of its operands. An operand's place
reaches over all that is attached to it; around these places nothing changes. -/
theorem resultText_eq_replace {text : String} {f : Formula} {settings : Settings} {e e' : Expression} {source rest : σ}
    {v : Number} (hread : Formula.read text = .ok f) (hreach : Reaches σ (ofFormula f settings) e)
    (hroll : e.roll source = ((.ok v, e'), rest)) :
    ∃ (p : Grammar.Phrase) (c : Text.Pieces), Grammar.Derives .sum p ∧ p.lexemes = Lexeme.scan text ∧
      c.text = text.toList ∧ c.spans 0 = p.operands.map Grammar.Operand.extent ∧
      e'.groups.map PlacedGroup.bare = (p.operands.map Grammar.Operand.placed).map PlacedGroup.bare ∧
      e'.resultText = String.ofList (c.replace (e'.groups.map (·.group.text.toList))) := by
  obtain ⟨p, t, c, hp, hlex, rfl, hgroups, htext, hcut, hspans⟩ := Formula.exists_pieces_of_read hread
  obtain ⟨hformula, hbare⟩ := (hreach.serves (t := t) rfl rfl).groups_of_roll rfl hroll
  refine ⟨p, c, hp, hlex, htext, hcut, hgroups ▸ hbare, ?_⟩
  have hplaces : c.spans 0 = e'.groups.map (·.span) := by
    have hmap := congrArg (List.map (·.span)) hbare
    rw [List.map_map, List.map_map] at hmap
    exact hspans.trans hmap.symm
  rw [resultText, hformula]
  exact congrArg String.ofList (htext ▸ resultsFrom_pieces c [] e'.groups hplaces)

/-- Two operands, one with a modifier and a blank in front of it. -/
theorem resultText_eq_replace_lowest :
    let lowest : Formula := ⟨"( 2d6 kl1 )-d4",
      [⟨.dice 2 (.sided 6) [], ⟨2, 5⟩⟩, ⟨.modifier (.keepLow 1) [], ⟨6, 9⟩⟩, ⟨.dice 1 (.sided 4) [], ⟨12, 14⟩⟩,
        ⟨.operator .sub, ⟨11, 12⟩⟩]⟩
    let rolled := ((ofFormula lowest {}).roll (Script.mk [3, 5, 4])).1
    (Formula.read "( 2d6 kl1 )-d4" = .ok lowest ∧ rolled.1 = .ok (.whole 1) ∧
      rolled.2.resultText = "( [5d, 4] )-[3]") ∧
    ∃ (p : Grammar.Phrase) (c : Text.Pieces), p.lexemes = Lexeme.scan "( 2d6 kl1 )-d4" ∧
      c.text = "( 2d6 kl1 )-d4".toList ∧ c.spans 0 = p.operands.map Grammar.Operand.extent ∧
      "( [5d, 4] )-[3]" = String.ofList (c.replace (rolled.2.groups.map (·.group.text.toList))) := by
  intro lowest rolled
  have hread : Formula.read "( 2d6 kl1 )-d4" = .ok lowest := rfl
  have hvalue : rolled.1 = .ok (.whole 1) := by decide +kernel
  have htext : rolled.2.resultText = "( [5d, 4] )-[3]" := by decide +kernel
  have hroll : (ofFormula lowest {}).roll (Script.mk [3, 5, 4]) =
      ((.ok (.whole 1), rolled.2), ((ofFormula lowest {}).roll (Script.mk [3, 5, 4])).2) :=
    Prod.ext (Prod.ext hvalue rfl) rfl
  obtain ⟨p, c, -, hlex, hc, hcut, -, hreplace⟩ := resultText_eq_replace hread .refl hroll
  exact ⟨⟨hread, hvalue, htext⟩, p, c, hlex, hc, hcut, htext ▸ hreplace⟩

end Expression
end Tabletop
