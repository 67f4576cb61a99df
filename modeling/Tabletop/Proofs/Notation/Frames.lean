import Tabletop.Proofs.Notation.Reading

/-! Phrases begun and not yet complete, one inside the other, and how they are completed from the innermost
one out. What they leave on the stack of waiting operators is what the formulas' reader keeps there. -/
namespace Tabletop.Grammar
open Formula (Pending leaving leaving_append)

/-- A phrase begun, up to the part that is still to come. -/
inductive Frame where
  | left (op : Operator) (sign : Text.Span) (l : Phrase)
  | negate (sign : Text.Span)
  | plus (sign : Text.Span)
  | paren (opened : Text.Span)

namespace Category
variable {t : Category} {op : Operator}

private theorem strength_le_of_rank (ht : t = .product ∨ t = .sum) (h : (resultOf op).rank ≤ t.rank) :
    t.strength ≤ Formula.strength op := by
  revert h
  rcases ht with rfl | rfl <;> cases op <;> decide

private theorem lt_limit_of_rank (ht : t = .product ∨ t = .sum) (h : ¬ (resultOf op).rank ≤ t.rank) :
    t.rank ≤ (rightOf op).rank ∧ Formula.strength op < t.limit := by
  revert h
  rcases ht with rfl | rfl <;> cases op <;> decide

private theorem leftOf_of_ne_pow (h : op ≠ .pow) :
    (leftOf op = .product ∨ leftOf op = .sum) ∧ resultOf op = leftOf op := by
  revert h
  cases op <;> decide

end Category

namespace Frame

def lexemes : Frame → List Lexeme.Placed
  | left op sign l => l.lexemes ++ [⟨.operator op, sign⟩]
  | negate sign => [⟨.operator .sub, sign⟩]
  | plus sign => [⟨.operator .add, sign⟩]
  | paren opened => [⟨.openParen, opened⟩]

def tokens : Frame → List PlacedToken
  | left _ _ l => l.tokens
  | negate sign => [Phrase.zeroAt sign]
  | plus _ | paren _ => []

/-- What waits on the stack for the phrase. A plus sign leaves nothing there. -/
def pending? : Frame → Option (Pending × Text.Span)
  | left op sign _ => some (.binary op, sign)
  | negate sign => some (.negate, sign)
  | plus _ => none
  | paren opened => some (.openParen, opened)

/-- What is still to come. -/
def inner : Frame → Category
  | left op _ _ => .rightOf op
  | negate _ | plus _ => .unary
  | paren _ => .sum

/-- What the phrase will be. -/
def outer : Frame → Category
  | left op _ _ => .resultOf op
  | negate _ | plus _ => .unary
  | paren _ => .primary

def Sound : Frame → Prop
  | left op _ l => Derives (.leftOf op) l
  | _ => True

/-- The phrase with its last part in place. A parenthesis is still to be closed. -/
def fill (p : Phrase) : Frame → Phrase
  | left op sign l => .binary op sign l p
  | negate sign => .negate sign p
  | plus sign => .plus sign p
  | paren _ => p

/-- Whether the phrase, with its last part in place, belongs to one of the category. -/
def Joins (t : Category) : Frame → Prop
  | left op _ _ => (Category.resultOf op).rank ≤ t.rank
  | negate _ | plus _ => Category.unary.rank ≤ t.rank
  | paren _ => False

variable {f : Frame} {t : Category} {p : Phrase}

private theorem Joins.rank_le (h : f.Joins t) : f.outer.rank ≤ t.rank := by
  cases f with
  | paren opened => exact h.elim
  | _ => exact h

private theorem Joins.lexemes_fill (h : f.Joins t) : (f.fill p).lexemes = f.lexemes ++ p.lexemes := by
  cases f with
  | left op sign l => simp [fill, Phrase.lexemes, lexemes]
  | paren opened => exact h.elim
  | _ => rfl

private theorem Joins.derives_fill (h : f.Joins t) (hf : f.Sound) (hp : Derives f.inner p) :
    Derives f.outer (f.fill p) := by
  cases f with
  | left op sign l => exact .binary op sign hf hp
  | negate sign => exact .negate sign hp
  | plus sign => exact .plus sign hp
  | paren opened => exact h.elim

private theorem tokens_fill : (f.fill p).tokens = f.tokens ++ p.tokens ++ leaving f.pending?.toList := by
  cases f <;> simp [fill, Phrase.tokens, tokens, pending?, leaving, Pending.operator?]

/-- What joins a phrase leaves the stack before anything weaker. -/
theorem Joins.strength_le (ht : t = .product ∨ t = .sum) (h : f.Joins t) :
    ∀ w ∈ f.pending?, t.strength ≤ w.1.strength := by
  cases f with
  | left op sign l =>
    rintro w ⟨⟩
    exact Category.strength_le_of_rank ht h
  | negate sign =>
    rintro w ⟨⟩
    rcases ht with rfl | rfl <;> exact Nat.le_of_ble_eq_true rfl
  | plus sign => nofun
  | paren opened => exact h.elim

private theorem stays_of_not_joins (ht : t = .product ∨ t = .sum) (h : ¬ f.Joins t) :
    t.rank ≤ f.inner.rank ∧ ∃ w, f.pending? = some w ∧ w.1.strength < t.limit := by
  cases f with
  | left op sign l =>
    obtain ⟨hr, hl⟩ := Category.lt_limit_of_rank ht h
    exact ⟨hr, _, rfl, hl⟩
  | paren opened =>
    rcases ht with rfl | rfl <;> exact ⟨Nat.le_of_ble_eq_true rfl, _, rfl, Nat.le_of_ble_eq_true rfl⟩
  | _ => rcases ht with rfl | rfl <;> exact absurd (Nat.le_of_ble_eq_true rfl) h

end Frame

/-- What may come on top of phrases begun, the innermost first. -/
def hole : List Frame → Category
  | [] => .sum
  | f :: _ => f.inner

def lexemesOf : List Frame → List Lexeme.Placed
  | [] => []
  | f :: fs => lexemesOf fs ++ f.lexemes

def tokensOf : List Frame → List PlacedToken
  | [] => []
  | f :: fs => tokensOf fs ++ f.tokens

def pendingOf (fs : List Frame) : List (Pending × Text.Span) := fs.filterMap Frame.pending?

theorem pendingOf_cons (f : Frame) (fs : List Frame) :
    pendingOf (f :: fs) = f.pending?.toList ++ pendingOf fs := by
  cases h : f.pending? <;> simp [pendingOf, h]

/-- Each phrase begun has its place in the next. -/
def Nested : List Frame → Prop
  | [] => True
  | f :: fs => f.Sound ∧ f.outer.rank ≤ (hole fs).rank ∧ Nested fs

theorem unary_le_hole (fs : List Frame) : Category.unary.rank ≤ (hole fs).rank := by
  cases fs with
  | nil => decide
  | cons f fs =>
    cases f with
    | left op sign l => cases op <;> exact Nat.le_of_ble_eq_true rfl
    | _ => exact Nat.le_of_ble_eq_true rfl

/-- Phrases completed from the top of the stack on, as far as they are part of one of the category. -/
theorem complete {t : Category} (ht : t = .product ∨ t = .sum) (fs : List Frame) {c : Category} {p : Phrase}
    (hfs : Nested fs) (hp : Derives c p) (hc : c.rank ≤ (hole fs).rank) (hct : c.rank ≤ t.rank) :
    ∃ own gs q, Nested gs ∧ Derives t q ∧ t.rank ≤ (hole gs).rank ∧
      pendingOf fs = own ++ pendingOf gs ∧ (∀ w ∈ own, t.strength ≤ w.1.strength) ∧
      (∀ w ∈ (pendingOf gs).head?, w.1.strength < t.limit) ∧
      lexemesOf gs ++ q.lexemes = lexemesOf fs ++ p.lexemes ∧
      tokensOf gs ++ q.tokens = tokensOf fs ++ p.tokens ++ leaving own := by
  induction fs generalizing c p with
  | nil =>
    refine ⟨[], [], p, trivial, hp.weaken hct, ?_, rfl, nofun, nofun, rfl, ?_⟩
    · rcases ht with rfl | rfl <;> decide
    · simp [leaving]
  | cons f fs ih =>
    obtain ⟨hf, hout, hrest⟩ := hfs
    by_cases hj : f.Joins t
    · obtain ⟨own, gs, q, hgs, hq, hhole, hpend, hown, hbase, hlex, htok⟩ :=
        ih hrest (hj.derives_fill hf (hp.weaken hc)) hout hj.rank_le
      refine ⟨f.pending?.toList ++ own, gs, q, hgs, hq, hhole, ?_, ?_, hbase, ?_, ?_⟩
      · rw [pendingOf_cons, hpend, List.append_assoc]
      · intro w hw
        rcases List.mem_append.1 hw with hw | hw
        · exact hj.strength_le ht w (Option.mem_toList.1 hw)
        · exact hown w hw
      · rw [hlex, hj.lexemes_fill, lexemesOf, List.append_assoc]
      · rw [htok, Frame.tokens_fill, leaving_append, tokensOf]
        simp only [List.append_assoc]
    · obtain ⟨hinner, w, hw, hlt⟩ := Frame.stays_of_not_joins ht hj
      refine ⟨[], f :: fs, p, ⟨hf, hout, hrest⟩, hp.weaken hct, hinner, rfl, nofun, ?_, rfl, ?_⟩
      · rw [pendingOf_cons, hw]
        rintro v ⟨⟩
        exact hlt
      · simp [leaving]

/-- Phrases completed as far as a new operator makes them its left side. -/
theorem complete_left (op : Operator) (fs : List Frame) {p : Phrase} (hfs : Nested fs) (hp : Derives .primary p) :
    ∃ own gs q, Nested gs ∧ Derives (.leftOf op) q ∧ (Category.resultOf op).rank ≤ (hole gs).rank ∧
      pendingOf fs = own ++ pendingOf gs ∧ (∀ w ∈ own, w.1.yieldsTo op = true) ∧
      (∀ w ∈ (pendingOf gs).head?, w.1.yieldsTo op = false) ∧
      lexemesOf gs ++ q.lexemes = lexemesOf fs ++ p.lexemes ∧
      tokensOf gs ++ q.tokens = tokensOf fs ++ p.tokens ++ leaving own := by
  by_cases hop : op = .pow
  · subst hop
    refine ⟨[], fs, p, hfs, hp, ?_, rfl, nofun, ?_, rfl, by simp [leaving]⟩
    · exact Nat.le_trans (by decide) (unary_le_hole fs)
    · exact fun w _ => Category.yieldsTo_of_lt (Nat.lt_succ_of_le w.1.strength_le)
  · obtain ⟨hleft, hresult⟩ := Category.leftOf_of_ne_pow hop
    obtain ⟨own, gs, q, hgs, hq, hhole, hpend, hown, hbase, hlex, htok⟩ :=
      complete hleft fs hfs hp (Nat.zero_le _) (Nat.zero_le _)
    exact ⟨own, gs, q, hgs, hq, hresult ▸ hhole, hpend, fun w hw => Category.yieldsTo_of_le (hown w hw),
      fun w hw => Category.yieldsTo_of_lt (hbase w hw), hlex, htok⟩

/-- Phrases completed up to the last open parenthesis, if there is one. -/
theorem complete_sum (fs : List Frame) {p : Phrase} (hfs : Nested fs) (hp : Derives .primary p) :
    ∃ own gs q, Nested gs ∧ Derives .sum q ∧ (gs = [] ∨ ∃ opened hs, gs = .paren opened :: hs) ∧
      pendingOf fs = own ++ pendingOf gs ∧ (∀ w ∈ own, 0 < w.1.strength) ∧
      lexemesOf gs ++ q.lexemes = lexemesOf fs ++ p.lexemes ∧
      tokensOf gs ++ q.tokens = tokensOf fs ++ p.tokens ++ leaving own := by
  obtain ⟨own, gs, q, hgs, hq, hhole, hpend, hown, hbase, hlex, htok⟩ :=
    complete (.inr rfl) fs hfs hp (Nat.zero_le _) (Nat.zero_le _)
  refine ⟨own, gs, q, hgs, hq, ?_, hpend, fun w hw => Nat.lt_of_lt_of_le (by decide) (hown w hw), hlex, htok⟩
  cases gs with
  | nil => exact .inl rfl
  | cons f gs =>
    cases f with
    | paren opened => exact .inr ⟨opened, gs, rfl⟩
    | left op sign l => cases op <;> exact absurd hhole (by simp [hole, Frame.inner, Category.rightOf, Category.rank])
    | _ => exact absurd hhole (by simp [hole, Frame.inner, Category.rank])

end Tabletop.Grammar
