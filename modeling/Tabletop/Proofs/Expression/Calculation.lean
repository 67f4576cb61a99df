import Mathlib.Data.List.Range
import Tabletop.Expression
import Tabletop.Proofs.Notation.Parsing

/-! Expression trees: operands, each with its modifiers, joined by the five operators. A tree has its tokens
in postfix order, the groups it is rolled with, the order in which its operators roll them, and a value for
every choice of totals. Whatever can be read is the postfix form of such a tree. -/
namespace Tabletop

/-- A modifier behind an operand. -/
structure PlacedModifier where
  modifier : WrittenModifier
  conditions : List Condition
  span : Text.Span

def PlacedModifier.token (m : PlacedModifier) : PlacedToken := ⟨.modifier m.modifier m.conditions, m.span⟩

/-- An operand that is a group. A number is one only where it stands for some text. -/
inductive Operand where
  | number (value : Number) (span : Text.Span) (visible : span.isEmpty = false)
  | dice (count : Nat) (faces : Faces) (conditions : List Condition) (span : Text.Span)
  | percentile (count : Nat) (digits : List Int64) (span : Text.Span)
  | stunt (span : Text.Span)

namespace Operand

def token : Operand → PlacedToken
  | number value span _ => ⟨.number value, span⟩
  | dice count faces conditions span => ⟨.dice count faces conditions, span⟩
  | percentile count digits span => ⟨.percentile count digits, span⟩
  | stunt span => ⟨.stunt, span⟩

/-- The operand before its first roll and without modifiers. -/
def group : Operand → DiceGroup
  | number value _ _ => .literal { value }
  | dice count faces conditions _ => .pool { count, faces, conditions }
  | percentile count digits _ => .percentile (.ofDigits count digits)
  | stunt _ => .stunt {}

end Operand

/-- A group takes a modifier and reaches over its text. -/
def PlacedGroup.attach (g : PlacedGroup) (m : PlacedModifier) : PlacedGroup :=
  ⟨g.group.attach (m.modifier.resolve g.group.count m.conditions), ⟨g.span.start, max g.span.stop m.span.stop⟩⟩

/-- The group of an operand, before its first roll, with modifiers in the order written. -/
def Operand.placed (o : Operand) (ms : List PlacedModifier) : PlacedGroup :=
  ms.foldl PlacedGroup.attach ⟨o.group, o.token.span⟩

/-- The total of one of several groups. -/
def totalOf (gs : List PlacedGroup) (i : Nat) : Number := (gs[i]?.map (·.group.total)).getD .zero

inductive Calculation where
  /-- A number that stands for no text and takes no modifiers. -/
  | literal (value : Number) (span : Text.Span) (invisible : span.isEmpty = true)
  | group (operand : Operand) (modifiers : List PlacedModifier)
  | binary (op : Operator) (sign : Text.Span) (left right : Calculation)

namespace Calculation

/-- The tree in postfix order. -/
def tokens : Calculation → List PlacedToken
  | literal value span _ => [⟨.number value, span⟩]
  | group o ms => o.token :: ms.map PlacedModifier.token
  | binary op sign l r => l.tokens ++ r.tokens ++ [⟨.operator op, sign⟩]

/-- The groups from the left, before the first roll. -/
def groups : Calculation → List PlacedGroup
  | literal .. => []
  | group o ms => [o.placed ms]
  | binary _ _ l r => l.groups ++ r.groups

/-- How many groups there are. -/
def size : Calculation → Nat
  | literal .. => 0
  | group .. => 1
  | binary _ _ l r => l.size + r.size

/-- The group that an operator above still has to roll, when the groups are numbered from `k` on. -/
def unrolled : Calculation → (k : Nat) → Option Nat
  | group .., k => some k
  | _, _ => none

/-- The groups that the operators of the tree roll, in postfix order of the operators: each rolls its
right operand and then its left one, where these are groups. -/
def operatorRolls : Calculation → (k : Nat) → List Nat
  | binary _ _ l r, k =>
    l.operatorRolls k ++ r.operatorRolls (k + l.size) ++ (r.unrolled (k + l.size)).toList ++ (l.unrolled k).toList
  | _, _ => []

/-- The order in which a whole tree is rolled. A lone group is rolled at the end. -/
def rollOrder (t : Calculation) : List Nat := t.operatorRolls 0 ++ (t.unrolled 0).toList

/-- The value of a tree for given totals of its groups. -/
def value (totals : Nat → Number) : Calculation → (k : Nat) → Except RollError Number
  | literal value _ _, _ => .ok value
  | group .., k => .ok (totals k)
  | binary op _ l r, k => do op.apply (← l.value totals k) (← r.value totals (k + l.size))

/-- Some division has a right side with value zero. -/
inductive DividesByZero (totals : Nat → Number) : Calculation → (k : Nat) → Prop where
  | here {sign : Text.Span} {l r : Calculation} {k : Nat} {v : Number}
      (hv : r.value totals (k + l.size) = .ok v) (hz : (v == .zero) = true) :
      DividesByZero totals (.binary .div sign l r) k
  | left {op : Operator} {sign : Text.Span} {l r : Calculation} {k : Nat} (h : DividesByZero totals l k) :
      DividesByZero totals (.binary op sign l r) k
  | right {op : Operator} {sign : Text.Span} {l r : Calculation} {k : Nat}
      (h : DividesByZero totals r (k + l.size)) : DividesByZero totals (.binary op sign l r) k

private theorem div?_eq_none_iff {a b : Number} : a.div? b = none ↔ (b == .zero) = true := by
  unfold Number.div?
  split
  · rename_i hb
    simp [hb]
  · rename_i hb
    refine ⟨fun h => ?_, fun h => absurd h hb⟩
    split at h
    · split at h <;> cases h
    · cases h

theorem apply_eq_error_iff {op : Operator} {a b : Number} {why : RollError} :
    op.apply a b = .error why ↔ op = .div ∧ (b == .zero) = true ∧ why = .zeroDivision := by
  cases op with
  | div =>
    cases hq : a.div? b with
    | none => simp [Operator.apply, hq, div?_eq_none_iff.1 hq, eq_comm]
    | some q =>
      have hb : ¬ (b == .zero) = true := fun h => by rw [div?_eq_none_iff.2 h] at hq; cases hq
      simp [Operator.apply, hq, hb]
  | _ => simp [Operator.apply]

theorem length_groups (t : Calculation) : t.groups.length = t.size := by
  induction t with
  | literal | group => rfl
  | binary op sign l r ihl ihr => simp [groups, size, ihl, ihr]

/-- Every group is rolled exactly once, by an operator of the tree or by whatever takes the tree. -/
theorem operatorRolls_perm (t : Calculation) (k : Nat) :
    (t.operatorRolls k ++ (t.unrolled k).toList).Perm (List.range' k t.size) := by
  induction t generalizing k with
  | literal => exact .nil
  | group => exact .refl _
  | binary op sign l r ihl ihr =>
    have hl := ihl k
    have hr := ihr (k + l.size)
    let lu := (l.unrolled k).toList
    let rs := r.operatorRolls (k + l.size) ++ (r.unrolled (k + l.size)).toList
    calc
      _ = l.operatorRolls k ++ (rs ++ lu) := by simp [operatorRolls, unrolled, rs, lu]
      List.Perm _ (l.operatorRolls k ++ (lu ++ rs)) := List.perm_append_comm.append_left _
      _ = (l.operatorRolls k ++ lu) ++ rs := (List.append_assoc ..).symm
      List.Perm _ (List.range' k l.size ++ List.range' (k + l.size) r.size) := hl.append hr
      _ = List.range' k (size (.binary op sign l r)) := List.range'_append_1

theorem rollOrder_perm (t : Calculation) : t.rollOrder.Perm (List.range t.size) := by
  rw [List.range_eq_range']
  exact t.operatorRolls_perm 0

theorem value_eq_error_iff (totals : Nat → Number) (t : Calculation) (k : Nat) (why : RollError) :
    t.value totals k = .error why ↔ why = .zeroDivision ∧ t.DividesByZero totals k := by
  induction t generalizing k why with
  | literal | group => exact ⟨nofun, fun h => nomatch h.2⟩
  | binary op sign l r ihl ihr =>
    cases hl : l.value totals k with
    | error w =>
      obtain ⟨rfl, hdiv⟩ := (ihl k w).1 hl
      simp [value, hl, bind, Except.bind, DividesByZero.left hdiv, eq_comm]
    | ok a =>
      cases hr : r.value totals (k + l.size) with
      | error w =>
        obtain ⟨rfl, hdiv⟩ := (ihr _ w).1 hr
        simp [value, hl, hr, bind, Except.bind, DividesByZero.right hdiv, eq_comm]
      | ok b =>
        simp only [value, hl, hr, bind, Except.bind, apply_eq_error_iff]
        constructor
        · rintro ⟨rfl, hz, rfl⟩
          exact ⟨rfl, .here hr hz⟩
        · rintro ⟨rfl, hdiv⟩
          cases hdiv with
          | here hv hz =>
            rw [hr] at hv
            cases hv
            exact ⟨rfl, hz, rfl⟩
          | left h => cases hl.symm.trans ((ihl k _).2 ⟨rfl, h⟩)
          | right h => cases hr.symm.trans ((ihr _ _).2 ⟨rfl, h⟩)

end Calculation

namespace Grammar

def Suffix.placed (s : Suffix) : PlacedModifier :=
  ⟨s.modifier, s.conditions.map (·.condition), reach s.span s.conditions⟩

/-- What an operand starts with as a group, before its first roll. -/
def Head.group : Head → DiceGroup
  | number value => .literal { value }
  | dice count faces cs => .pool { count, faces, conditions := cs.map (·.condition) }
  | percentile count digits => .percentile (.ofDigits count digits)
  | stunt => .stunt {}

/-- The group of an operand before its first roll, with its modifiers in the order written. -/
def Operand.placed (o : Operand) : PlacedGroup :=
  (o.suffixes.map Suffix.placed).foldl PlacedGroup.attach ⟨o.head.group, reach o.span o.head.conditions⟩

/-- The operands from the left. -/
def Phrase.operands : Phrase → List Operand
  | operand o => [o]
  | parens _ _ p | plus _ p | negate _ p => p.operands
  | binary _ _ l r => l.operands ++ r.operands

private theorem Operand.exists_calculation (o : Operand) (h : ∀ l ∈ o.lexemes, l.span.isEmpty = false) :
    ∃ t : Calculation, t.tokens = o.tokens ∧ t.groups = [o.placed] := by
  have hspan : o.span.isEmpty = false := h ⟨o.head.lexeme, o.span⟩ List.mem_cons_self
  have hmods : (o.suffixes.map Suffix.placed).map PlacedModifier.token = o.suffixes.map Suffix.token := by
    rw [List.map_map]
    rfl
  obtain ⟨head, span, ss⟩ := o
  cases head with
  | number value => exact ⟨.group (.number value span hspan) (ss.map Suffix.placed), congrArg _ hmods, rfl⟩
  | dice n faces cs =>
    exact ⟨.group (.dice n faces (cs.map (·.condition)) (reach span cs)) (ss.map Suffix.placed), congrArg _ hmods, rfl⟩
  | percentile n digits => exact ⟨.group (.percentile n digits span) (ss.map Suffix.placed), congrArg _ hmods, rfl⟩
  | stunt => exact ⟨.group (.stunt span) (ss.map Suffix.placed), congrArg _ hmods, rfl⟩

/-- The tree of a phrase has its tokens in postfix order and its operands from the left. -/
theorem Phrase.exists_calculation (p : Phrase) (h : ∀ l ∈ p.lexemes, l.span.isEmpty = false) :
    ∃ t : Calculation, t.tokens = p.tokens ∧ t.groups = p.operands.map Operand.placed := by
  induction p with
  | operand o => exact o.exists_calculation h
  | parens opened closed p ih => exact ih fun l hl => h l (by simp [lexemes, hl])
  | plus sign p ih => exact ih fun l hl => h l (by simp [lexemes, hl])
  | negate sign p ih =>
    obtain ⟨t, ht, hgroups⟩ := ih fun l hl => h l (by simp [lexemes, hl])
    refine ⟨.binary .sub sign (.literal .zero ⟨sign.start, sign.start⟩ (by simp [Text.Span.isEmpty])) t, ?_, ?_⟩
    · simp [Calculation.tokens, tokens, zeroAt, ht]
    · simpa [Calculation.groups, operands] using hgroups
  | binary op sign l r ihl ihr =>
    obtain ⟨t, ht, hleft⟩ := ihl fun x hx => h x (by simp [lexemes, hx])
    obtain ⟨u, hu, hright⟩ := ihr fun x hx => h x (by simp [lexemes, hx])
    refine ⟨.binary op sign t u, ?_, ?_⟩
    · simp [Calculation.tokens, tokens, ht, hu]
    · simp [Calculation.groups, operands, hleft, hright]

end Grammar

/-- Whatever is read is what the grammar derives from its lexemes, as the tokens of a tree. -/
theorem Formula.exists_phrase_of_read {text : String} {f : Formula} (h : Formula.read text = .ok f) :
    ∃ (p : Grammar.Phrase) (t : Calculation), Grammar.Derives .sum p ∧ p.lexemes = Lexeme.scan text ∧
      f = ⟨text, t.tokens⟩ ∧ t.groups = p.operands.map Grammar.Operand.placed := by
  obtain ⟨p, hp, hlex, rfl⟩ := exists_derives_of_read h
  obtain ⟨t, ht, hgroups⟩ := p.exists_calculation fun l hl =>
    Lexeme.scan_span_nonempty (hlex ▸ hl) (p.ne_invalid l hl)
  exact ⟨p, t, hp, hlex, by rw [ht], hgroups⟩

/-- Whatever is read has the tokens of a tree. -/
theorem Formula.exists_calculation_of_read {text : String} {f : Formula} (h : Formula.read text = .ok f) :
    ∃ t : Calculation, f = ⟨text, t.tokens⟩ := by
  obtain ⟨p, t, -, -, hf, -⟩ := exists_phrase_of_read h
  exact ⟨t, hf⟩

end Tabletop
