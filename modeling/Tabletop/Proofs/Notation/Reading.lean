import Tabletop.Proofs.Notation.Grammar
import Tabletop.Proofs.Notation.Waiting

/-! Reading what the grammar derives. Every phrase is read to its end over any stack that nothing in it
disturbs, and leaves behind only operators that bind at least as tightly as its category. -/
namespace Tabletop
open Grammar

section Runs
variable {ε α β : Type} {f : β → α → Except ε β} {b c : β} {as : List α}

private theorem foldlM_cons_of_ok {a : α} (h : f b a = .ok c) : (a :: as).foldlM f b = as.foldlM f c := by
  rw [List.foldlM_cons, h]
  rfl

private theorem foldlM_append_of_ok {bs : List α} (h : as.foldlM f b = .ok c) :
    (as ++ bs).foldlM f b = bs.foldlM f c := by
  rw [List.foldlM_append, h]
  rfl

end Runs

namespace Grammar

/-- Puts conditions behind those of dice or of a modifier. -/
def withConditions (cs : List Condition) : Token → Token
  | .dice n faces ds => .dice n faces (ds ++ cs)
  | .modifier m ds => .modifier m (ds ++ cs)
  | t => t

def HasConditions : Token → Prop
  | .dice .. | .modifier .. => True
  | _ => False

private theorem addCondition_of_has {t : PlacedToken} (ht : HasConditions t.token) (c : Condition) (stop : Nat)
    (output : List PlacedToken) :
    Formula.Progress.addCondition c stop (t :: output) =
      ⟨withConditions [c] t.token, ⟨t.span.start, stop⟩⟩ :: output := by
  obtain ⟨token, span⟩ := t
  cases token with
  | dice n faces ds => rfl
  | modifier m ds => rfl
  | _ => exact ht.elim

def Head.takesConditions : Head → Bool
  | .dice .. => true
  | _ => false

/-- Whether conditions may follow the operand. -/
def Operand.takesConditions (o : Operand) : Bool :=
  (o.suffixes.getLast?.map (·.modifier.takesConditions)).getD o.head.takesConditions

variable {source : String} {base : List (Formula.Pending × Text.Span)} {output : List PlacedToken}

open Formula (step Pending leaving)

private theorem step_condition {t : PlacedToken} (ht : HasConditions t.token) (c : PlacedCondition) :
    step source ⟨t :: output, base, .afterOperand true⟩ c.lexeme =
      .ok ⟨⟨withConditions [c.condition] t.token, ⟨t.span.start, c.span.stop⟩⟩ :: output, base,
        .afterOperand true⟩ := by
  simp only [step, PlacedCondition.lexeme, addCondition_of_has ht]

theorem step_operator {own : List (Pending × Text.Span)} {place : Formula.Place} {op : Operator}
    (sign : Text.Span) (hplace : place ≠ .beforeOperand) (hown : ∀ w ∈ own, w.1.yieldsTo op = true)
    (hbase : ∀ w ∈ base.head?, w.1.yieldsTo op = false) :
    step source ⟨output, own ++ base, place⟩ ⟨.operator op, sign⟩ =
      .ok ⟨(leaving own).reverse ++ output, (.binary op, sign) :: base, .beforeOperand⟩ := by
  simp only [step, if_neg hplace, Formula.Progress.release_append hown hbase]

theorem step_closeParen {own : List (Pending × Text.Span)} {place : Formula.Place} (opened closed : Text.Span)
    (hplace : place ≠ .beforeOperand) (hown : ∀ w ∈ own, 0 < w.1.strength) :
    step source ⟨output, own ++ (.openParen, opened) :: base, place⟩ ⟨.closeParen, closed⟩ =
      .ok ⟨(leaving own).reverse ++ output, base, .afterParen⟩ := by
  simp only [step, if_neg hplace, Formula.Progress.close?_append hown]

private theorem withConditions_append (as bs : List Condition) (t : Token) :
    withConditions bs (withConditions as t) = withConditions (as ++ bs) t := by
  cases t <;> simp [withConditions]

private theorem hasConditions_withConditions {cs : List Condition} {t : Token} (ht : HasConditions t) :
    HasConditions (withConditions cs t) := by
  cases t <;> trivial

private theorem withConditions_nil (t : Token) : withConditions [] t = t := by
  cases t <;> simp [withConditions]

private theorem step_conditions (cs : List PlacedCondition) {t : PlacedToken} (ht : HasConditions t.token) :
    (cs.map PlacedCondition.lexeme).foldlM (step source) ⟨t :: output, base, .afterOperand true⟩ =
      .ok ⟨⟨withConditions (cs.map (·.condition)) t.token, reach t.span cs⟩ :: output, base,
        .afterOperand true⟩ := by
  induction cs generalizing t with
  | nil =>
    simp only [List.map_nil, withConditions_nil]
    rfl
  | cons c cs ih =>
    rw [List.map_cons, foldlM_cons_of_ok (step_condition ht c)]
    refine (ih (hasConditions_withConditions ht)).trans ?_
    rw [withConditions_append]
    rfl

private theorem step_suffix (s : Suffix) (b : Bool) :
    s.lexemes.foldlM (step source) ⟨output, base, .afterOperand b⟩ =
      .ok ⟨s.token :: output, base, .afterOperand s.modifier.takesConditions⟩ := by
  obtain ⟨m, span, cs, allowed⟩ := s
  rcases allowed with rfl | hm
  · rfl
  · rw [Suffix.lexemes, foldlM_cons_of_ok rfl]
    simp only [hm]
    exact step_conditions cs (t := ⟨.modifier m [], span⟩) trivial

private theorem step_suffixes (ss : List Suffix) (b : Bool) :
    (ss.flatMap Suffix.lexemes).foldlM (step source) ⟨output, base, .afterOperand b⟩ =
      .ok ⟨(ss.map Suffix.token).reverse ++ output, base,
        .afterOperand ((ss.getLast?.map (·.modifier.takesConditions)).getD b)⟩ := by
  induction ss generalizing output b with
  | nil => rfl
  | cons s ss ih =>
    rw [List.flatMap_cons, foldlM_append_of_ok (step_suffix s b)]
    refine (ih s.modifier.takesConditions).trans ?_
    cases ss with
    | nil => rfl
    | cons s' ss => simp [List.getLast?_cons]

private theorem step_head (h : Head) (span : Text.Span) :
    (⟨h.lexeme, span⟩ :: h.conditions.map PlacedCondition.lexeme).foldlM (step source)
        ⟨output, base, .beforeOperand⟩ =
      .ok ⟨⟨h.token, reach span h.conditions⟩ :: output, base, .afterOperand h.takesConditions⟩ := by
  cases h with
  | dice n faces cs =>
    rw [foldlM_cons_of_ok rfl]
    exact step_conditions cs (t := ⟨.dice n faces [], span⟩) trivial
  | _ => rfl

private theorem step_operand (o : Operand) :
    o.lexemes.foldlM (step source) ⟨output, base, .beforeOperand⟩ =
      .ok ⟨o.tokens.reverse ++ output, base, .afterOperand o.takesConditions⟩ := by
  rw [Operand.lexemes, foldlM_append_of_ok (step_head o.head o.span)]
  refine (step_suffixes o.suffixes o.head.takesConditions).trans ?_
  simp [Operand.tokens, Operand.takesConditions]

/-- No operator weaker than this waits when a phrase of the category has been read. -/
def Category.strength : Category → Nat
  | primary => 7
  | power | unary => 5
  | product => 4
  | sum => 2

/-- An operator this strong would be finished by those in a phrase of the category. -/
def Category.limit : Category → Nat
  | primary | power | unary => 7
  | product => 4
  | sum => 2

namespace Category

theorem yieldsTo_of_le {op : Operator} {w : Pending} (h : (leftOf op).strength ≤ w.strength) :
    w.yieldsTo op = true := by
  have := w.strength_le
  cases op with
  | pow => exact absurd h (Nat.not_le_of_lt (Nat.lt_succ_of_le this))
  | _ => exact Pending.yieldsTo_iff.2 ⟨nofun, h⟩

theorem yieldsTo_of_lt {op : Operator} {w : Pending} (h : w.strength < (leftOf op).limit) :
    w.yieldsTo op = false := by
  rw [← Bool.not_eq_true, Pending.yieldsTo_iff]
  rintro ⟨hop, hle⟩
  cases op with
  | pow => exact hop rfl
  | _ => exact absurd hle (Nat.not_le_of_lt h)

private theorem limit_resultOf (op : Operator) : (resultOf op).limit = (leftOf op).limit := by
  cases op <;> rfl

private theorem strength_resultOf (op : Operator) : (resultOf op).strength ≤ Formula.strength op ∧
    Formula.strength op < (rightOf op).limit ∧ (resultOf op).strength ≤ (rightOf op).strength := by
  cases op <;> decide

end Category

/-- The phrase is read to its end over any stack that nothing in it disturbs. -/
def Reads (source : String) (c : Category) (p : Phrase) : Prop :=
  ∀ (base : List (Pending × Text.Span)) (output : List PlacedToken),
    (∀ w ∈ base.head?, w.1.strength < c.limit) →
    ∃ own out place, place ≠ .beforeOperand ∧ (∀ w ∈ own, c.strength ≤ w.1.strength) ∧
      out.reverse ++ leaving own = output.reverse ++ p.tokens ∧
      p.lexemes.foldlM (step source) ⟨output, base, .beforeOperand⟩ = .ok ⟨out, own ++ base, place⟩

private theorem Reads.mono {c d : Category} {p : Phrase} (h : Reads source c p) (hs : d.strength ≤ c.strength)
    (hl : d.limit ≤ c.limit) : Reads source d p := by
  intro base output hbase
  obtain ⟨own, out, place, hplace, hown, hout, hrun⟩ := h base output fun w hw => Nat.lt_of_lt_of_le (hbase w hw) hl
  exact ⟨own, out, place, hplace, fun w hw => Nat.le_trans hs (hown w hw), hout, hrun⟩

/-- What is read behind a waiting operator or sign leaves that one below its own. -/
theorem Reads.behind {c d : Category} {p : Phrase} (h : Reads source c p) (w : Pending × Text.Span)
    (hd : d.strength ≤ w.1.strength) (hc : w.1.strength < c.limit) (hcd : d.strength ≤ c.strength)
    (base : List (Pending × Text.Span)) (output : List PlacedToken) :
    ∃ own out place, place ≠ .beforeOperand ∧ (∀ v ∈ own, d.strength ≤ v.1.strength) ∧
      out.reverse ++ leaving own = output.reverse ++ p.tokens ++ leaving [w] ∧
      p.lexemes.foldlM (step source) ⟨output, w :: base, .beforeOperand⟩ = .ok ⟨out, own ++ base, place⟩ := by
  obtain ⟨own, out, place, hplace, hown, hout, hrun⟩ := h (w :: base) output (by simpa using hc)
  refine ⟨own ++ [w], out, place, hplace, ?_, ?_, ?_⟩
  · intro v hv
    rcases List.mem_append.1 hv with hv | hv
    · exact Nat.le_trans hcd (hown v hv)
    · rw [List.mem_singleton.1 hv]
      exact hd
  · rw [Formula.leaving_append, ← List.append_assoc, hout]
  · rw [hrun, List.append_assoc]
    rfl

private theorem Reads.binary (op : Operator) (sign : Text.Span) {l r : Phrase}
    (hl : Reads source (.leftOf op) l) (hr : Reads source (.rightOf op) r) :
    Reads source (.resultOf op) (.binary op sign l r) := by
  intro base output hbase
  rw [Category.limit_resultOf] at hbase
  obtain ⟨hweak, hlimit, hright⟩ := Category.strength_resultOf op
  obtain ⟨own, out, place, hplace, hown, hout, hrun⟩ := hl base output hbase
  have hyield : ∀ w ∈ own, w.1.yieldsTo op = true := fun w hw => Category.yieldsTo_of_le (hown w hw)
  have hstay : ∀ w ∈ base.head?, w.1.yieldsTo op = false := fun w hw => Category.yieldsTo_of_lt (hbase w hw)
  obtain ⟨own', out', place', hplace', hown', hout', hrun'⟩ :=
    hr.behind (d := .resultOf op) (.binary op, sign) hweak hlimit hright base ((leaving own).reverse ++ out)
  refine ⟨own', out', place', hplace', hown', ?_, ?_⟩
  · rw [hout', List.reverse_append, List.reverse_reverse, hout]
    simp [Phrase.tokens, leaving, Pending.operator?]
  · rw [Phrase.lexemes, foldlM_append_of_ok hrun, foldlM_cons_of_ok (step_operator sign hplace hyield hstay)]
    exact hrun'

theorem Derives.reads {c : Category} {p : Phrase} (h : Derives c p) : Reads source c p := by
  induction h with
  | operand o =>
    intro base output _
    refine ⟨[], o.tokens.reverse ++ output, .afterOperand o.takesConditions, by simp, by simp, ?_, step_operand o⟩
    simp [Phrase.tokens, leaving]
  | parens opened closed inner ih =>
    intro base output _
    obtain ⟨own, out, place, hplace, hown, hout, hrun⟩ :=
      ih ((.openParen, opened) :: base) output (by simp [Pending.strength, Category.limit])
    have hpos : ∀ w ∈ own, 0 < w.1.strength := fun w hw => Nat.lt_of_lt_of_le (by decide) (hown w hw)
    refine ⟨[], (leaving own).reverse ++ out, .afterParen, by simp, by simp, ?_, ?_⟩
    · rw [List.reverse_append, List.reverse_reverse, hout, Phrase.tokens, leaving, List.filterMap_nil, List.append_nil]
    · rw [Phrase.lexemes, List.cons_append, foldlM_cons_of_ok rfl, foldlM_append_of_ok hrun,
        foldlM_cons_of_ok (step_closeParen opened closed hplace hpos)]
      rfl
  | primary h ih => exact ih.mono (by decide) (by decide)
  | raise sign left right ihl ihr => exact .binary .pow sign ihl ihr
  | power h ih => exact ih.mono (by decide) (by decide)
  | plus sign h ih => exact ih
  | negate sign h ih =>
    intro base output _
    have hstrength : Category.unary.strength ≤ Pending.negate.strength := by decide
    have hlimit : Pending.negate.strength < Category.unary.limit := by decide
    obtain ⟨own, out, place, hplace, hown, hout, hrun⟩ :=
      ih.behind (.negate, sign) hstrength hlimit (Nat.le_refl _) base (Phrase.zeroAt sign :: output)
    refine ⟨own, out, place, hplace, hown, ?_, hrun⟩
    rw [hout]
    simp [Phrase.tokens, leaving, Pending.operator?]
  | unary h ih => exact ih.mono (by decide) (by decide)
  | times op sign hop left right ihl ihr =>
    rcases hop with rfl | rfl
    · exact .binary .mul sign ihl ihr
    · exact .binary .div sign ihl ihr
  | product h ih => exact ih.mono (by decide) (by decide)
  | add op sign hop left right ihl ihr =>
    rcases hop with rfl | rfl
    · exact .binary .add sign ihl ihr
    · exact .binary .sub sign ihl ihr

end Grammar
end Tabletop
