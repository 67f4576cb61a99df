import Mathlib.Algebra.Order.Field.Rat
import Mathlib.Data.List.Induction
import Mathlib.Data.List.Infix
import Mathlib.Data.Rat.Cast.Defs
import Tabletop.Expression
import Tabletop.Proofs.Number.Arithmetic

/-! The exact value of a program. A program is read into a tree, which has a rational value where nothing is divided by
zero. While the program leaves nothing but whole numbers on its stack, they are the values of the trees read so far. -/
namespace Tabletop

/-- The exact result of an operator. There is none for a division by zero, and none for an exponent with a fraction. -/
def Operator.rational? (op : Operator) (a b : ℚ) : Option ℚ :=
  match op with
  | .add => some (a + b)
  | .sub => some (a - b)
  | .mul => some (a * b)
  | .div => if b = 0 then none else some (a / b)
  | .pow => if b.den = 1 ∧ (a ≠ 0 ∨ 0 ≤ b) then some (a ^ b.num) else none

def Operator.rationalSign? (op : Operator) (a : ℚ) : Option ℚ :=
  match op with
  | .sub => some (-a)
  | .add => some a
  | _ => none

/-- What a program computes, with its operands in their places. -/
inductive Arithmetic where
  | number (n : Number)
  | sign (op : Operator) (operand : Arithmetic)
  | binary (op : Operator) (left right : Arithmetic)

namespace Arithmetic

/-- The exact value, of whole numbers only. -/
def value? : Arithmetic → Option ℚ
  | number n => n.integer?.map fun r => r
  | sign op t => t.value? >>= op.rationalSign?
  | binary op l r => do op.rational? (← l.value?) (← r.value?)

/-- Reads one instruction: operands are shifted onto the stack, operators reduce what is there. -/
def shift (groups : List PlacedGroup) : List Arithmetic → Instruction → Option (List Arithmetic)
  | stack, .group i => groups[i]?.map fun g => number g.group.total :: stack
  | stack, .literal n => some (number n :: stack)
  | [], .operator _ => none
  | [t], .operator op => some [sign op t]
  | r :: l :: stack, .operator op => some (binary op l r :: stack)

def read? (groups : List PlacedGroup) (program : List Instruction) : Option Arithmetic := do
  match ← program.foldlM (shift groups) [] with
  | [t] => some t
  | _ => none

/-- The exact value of a program, if it has one. -/
def valueOf? (groups : List PlacedGroup) (program : List Instruction) : Option ℚ := read? groups program >>= value?

/-- A whole number on the stack is the exact value of what was read. -/
def Computes (n : Number) (t : Arithmetic) : Prop := ∃ r : Int, n.integer? = some r ∧ t.value? = some r

end Arithmetic

/-- Whatever an instruction of the program puts on the stack is a whole number. -/
def Instruction.StaysWhole (groups : List PlacedGroup) (program : List Instruction) : Prop :=
  ∀ front, front <+: program → ∀ n rest, front.foldlM (step groups) [] = .ok (n :: rest) → ∃ r, n.integer? = some r

namespace Operator
variable {a b n : Number} {r s q : Int} {op : Operator}

/-- Where an operator gives a whole number for whole numbers, that is its exact result. -/
theorem rational?_of_apply (ha : a.integer? = some r) (hb : b.integer? = some s) (hn : op.apply a b = .ok n)
    (hq : n.integer? = some q) : op.rational? r s = some (q : ℚ) := by
  obtain ⟨x, rfl, rfl⟩ := Number.integer?_eq_some_iff.1 ha
  obtain ⟨y, rfl, rfl⟩ := Number.integer?_eq_some_iff.1 hb
  cases op with
  | add =>
    cases hn
    rw [(Number.integer?_exactOr.1 hq).1, rational?, Int.cast_add]
  | sub =>
    cases hn
    rw [(Number.integer?_exactOr.1 hq).1, rational?, Int.cast_sub]
  | mul =>
    cases hn
    rw [(Number.integer?_exactOr.1 hq).1, rational?, Int.cast_mul]
  | div =>
    rw [apply] at hn
    split at hn
    · rename_i v hv
      cases hn
      have hy : (y.toInt : ℚ) ≠ 0 := fun hy => by
        rw [Number.div?_whole_eq_none_iff.2 (Int.cast_eq_zero.1 hy)] at hv
        cases hv
      have hquotient := ((Number.integer?_of_div?_whole hv).1 hq).1
      rw [rational?, if_neg hy, ← hquotient, Int.cast_mul, mul_div_cancel_right₀ _ hy]
    · cases hn
  | pow =>
    cases hn
    obtain ⟨⟨hy, -⟩, rfl, -⟩ := Number.integer?_whole_pow.1 hq
    have hexponent : ((y.toInt : ℚ).den = 1 ∧ ((x.toInt : ℚ) ≠ 0 ∨ 0 ≤ (y.toInt : ℚ))) :=
      ⟨Rat.den_intCast _, .inr (Rat.intCast_nonneg.2 hy)⟩
    rw [rational?, if_pos hexponent, Rat.num_intCast, Int.cast_pow, ← zpow_natCast, Int.toNat_of_nonneg hy]

/-- Only a division fails, and then there is no result. -/
theorem rational?_of_apply_error {why : RollError} (ha : a.integer? = some r) (hb : b.integer? = some s)
    (h : op.apply a b = .error why) : op.rational? r s = none := by
  obtain ⟨x, rfl, rfl⟩ := Number.integer?_eq_some_iff.1 ha
  obtain ⟨y, rfl, rfl⟩ := Number.integer?_eq_some_iff.1 hb
  cases op with
  | div =>
    rw [apply] at h
    split at h
    · cases h
    · rename_i hzero
      exact if_pos (Int.cast_eq_zero.2 (Number.div?_whole_eq_none_iff.1 hzero))
  | add | sub | mul | pow => cases h

private theorem rationalSign?_of_applySign (ha : a.integer? = some r) (hn : op.applySign a = .ok n)
    (hq : n.integer? = some q) : op.rationalSign? r = some (q : ℚ) := by
  obtain ⟨x, rfl, rfl⟩ := Number.integer?_eq_some_iff.1 ha
  cases op with
  | sub =>
    cases hn
    rw [(Number.integer?_exactOr.1 hq).1, rationalSign?, Int.cast_neg]
  | add =>
    cases hn
    cases hq
    rfl
  | mul | div | pow => cases hn

private theorem rationalSign?_of_applySign_error {why : RollError} (h : op.applySign a = .error why) (c : ℚ) :
    op.rationalSign? c = none := by
  cases op with
  | add | sub => cases h
  | mul | div | pow => rfl

end Operator

namespace Arithmetic
variable {groups : List PlacedGroup} {program : List Instruction} {ns : List Number} {ts : List Arithmetic} {t : Arithmetic}

section
variable {a b n : Number} {l r : Arithmetic} {op : Operator} {q : Int} {why : RollError}

private theorem computes_number (hq : n.integer? = some q) : Computes n (number n) := ⟨q, hq, by rw [value?, hq]; rfl⟩

private theorem Computes.sign (h : Computes a l) (hn : op.applySign a = .ok n) (hq : n.integer? = some q) :
    Computes n (sign op l) := by
  obtain ⟨s, hs, hl⟩ := h
  refine ⟨q, hq, ?_⟩
  rw [value?, hl]
  exact Operator.rationalSign?_of_applySign hs hn hq

private theorem Computes.binary (hl : Computes a l) (hr : Computes b r) (hn : op.apply a b = .ok n)
    (hq : n.integer? = some q) : Computes n (binary op l r) := by
  obtain ⟨s, hs, hl⟩ := hl
  obtain ⟨u, hu, hr⟩ := hr
  refine ⟨q, hq, ?_⟩
  rw [value?, hl, hr]
  exact Operator.rational?_of_apply hs hu hn hq

private theorem Computes.sign_valueless (h : Computes a l) (hwhy : op.applySign a = .error why) :
    (Arithmetic.sign op l).value? = none := by
  obtain ⟨s, -, hl⟩ := h
  rw [value?, hl]
  exact Operator.rationalSign?_of_applySign_error hwhy _

private theorem Computes.binary_valueless (hl : Computes a l) (hr : Computes b r) (hwhy : op.apply a b = .error why) :
    (Arithmetic.binary op l r).value? = none := by
  obtain ⟨s, hs, hl⟩ := hl
  obtain ⟨u, hu, hr⟩ := hr
  rw [value?, hl, hr]
  exact Operator.rational?_of_apply_error hs hu hwhy

end

/-- What was read of a program agrees with how it went: all trees have the values on the stack, or, after a failure, some
tree has none. -/
def Agrees (run : Except RollError (List Number)) (read : Option (List Arithmetic)) : Prop :=
  match run with
  | .ok ns => ∃ ts, read = some ts ∧ List.Forall₂ Computes ns ts
  | .error _ => ∀ ts, read = some ts → ∃ t ∈ ts, t.value? = none

private theorem step_agrees (h : List.Forall₂ Computes ns ts) (i : Instruction)
    (hwhole : ∀ n rest, Instruction.step groups ns i = .ok (n :: rest) → ∃ r, n.integer? = some r) :
    Agrees (Instruction.step groups ns i) (shift groups ts i) := by
  cases i with
  | group k =>
    rw [Instruction.step] at hwhole ⊢
    rw [shift]
    cases hg : groups[k]? with
    | none => nofun
    | some g =>
      rw [hg] at hwhole
      obtain ⟨q, hq⟩ := hwhole _ _ rfl
      exact ⟨_, rfl, .cons (computes_number hq) h⟩
  | literal n =>
    obtain ⟨q, hq⟩ := hwhole _ _ rfl
    exact ⟨_, rfl, .cons (computes_number hq) h⟩
  | operator op =>
    -- no operand, a sign for the only one, or the two on top
    match h with
    | .nil => nofun
    | .cons (a := b) hb .nil =>
      rw [Instruction.step] at hwhole ⊢
      cases hn : op.applySign b with
      | error why =>
        rintro _ ⟨⟩
        exact ⟨_, List.mem_cons_self, hb.sign_valueless hn⟩
      | ok n =>
        rw [hn] at hwhole
        obtain ⟨q, hq⟩ := hwhole _ _ rfl
        exact ⟨_, rfl, .cons (hb.sign hn hq) .nil⟩
    | .cons (a := b) hb (.cons (a := a) ha hrest) =>
      rw [Instruction.step] at hwhole ⊢
      cases hn : op.apply a b with
      | error why =>
        rintro _ ⟨⟩
        exact ⟨_, List.mem_cons_self, ha.binary_valueless hb hn⟩
      | ok n =>
        rw [hn] at hwhole
        obtain ⟨q, hq⟩ := hwhole _ _ rfl
        exact ⟨_, rfl, .cons (ha.binary hb hn hq) hrest⟩

/-- Trees without a value stay, or are put into others that have none. -/
theorem shift_valueless {ts' : List Arithmetic} {i : Instruction} (hstep : shift groups ts i = some ts')
    (h : ∃ t ∈ ts, t.value? = none) : ∃ t ∈ ts', t.value? = none := by
  obtain ⟨t, ht, hnone⟩ := h
  cases i with
  | group k =>
    obtain ⟨g, -, rfl⟩ := Option.map_eq_some_iff.1 hstep
    exact ⟨t, List.mem_cons_of_mem _ ht, hnone⟩
  | literal n =>
    cases hstep
    exact ⟨t, List.mem_cons_of_mem _ ht, hnone⟩
  | operator op =>
    match ts, ht with
    | [r], ht =>
      cases hstep
      obtain rfl := List.mem_singleton.1 ht
      exact ⟨_, List.mem_singleton_self _, by rw [value?, hnone]; rfl⟩
    | r :: l :: rest, ht =>
      cases hstep
      rcases List.mem_cons.1 ht with rfl | ht
      · refine ⟨_, List.mem_cons_self, ?_⟩
        rw [value?, hnone]
        cases l.value? <;> rfl
      rcases List.mem_cons.1 ht with rfl | ht
      · exact ⟨_, List.mem_cons_self, by rw [value?, hnone]; rfl⟩
      · exact ⟨t, List.mem_cons_of_mem _ ht, hnone⟩

private theorem foldlM_concat {m : Type → Type} [Monad m] [LawfulMonad m] {α β : Type} (f : β → α → m β) (b : β)
    (as : List α) (a : α) : (as ++ [a]).foldlM f b = as.foldlM f b >>= (f · a) := by
  rw [List.foldlM_append]
  simp

private theorem run_agrees (hwhole : Instruction.StaysWhole groups program) :
    Agrees (program.foldlM (Instruction.step groups) []) (program.foldlM (shift groups) []) := by
  induction program using List.reverseRecOn with
  | nil => exact ⟨[], rfl, .nil⟩
  | append_singleton program i ih =>
    have hbefore := ih fun front hfront => hwhole front (hfront.trans (List.prefix_append _ _))
    have hlast := hwhole _ List.prefix_rfl
    rw [foldlM_concat] at hlast ⊢
    rw [foldlM_concat]
    cases hrun : program.foldlM (Instruction.step groups) [] with
    | error why =>
      rw [hrun] at hbefore
      intro ts hts
      obtain ⟨ts', hread, hstep⟩ := Option.bind_eq_some_iff.1 hts
      exact shift_valueless hstep (hbefore ts' hread)
    | ok ns =>
      rw [hrun] at hbefore hlast
      obtain ⟨ts, hread, hagree⟩ := hbefore
      rw [hread]
      exact step_agrees hagree i hlast

/-- A program that stays with whole numbers comes to its exact value, and fails where there is none. -/
theorem run_exact (hwhole : Instruction.StaysWhole groups program) :
    (∀ n, Instruction.run groups program = .ok n → ∃ r : Int, n.integer? = some r ∧ valueOf? groups program = some (r : ℚ)) ∧
    (∀ why, Instruction.run groups program = .error why → valueOf? groups program = none) := by
  have hagrees := run_agrees hwhole
  rw [Instruction.run, valueOf?, read?]
  cases hrun : program.foldlM (Instruction.step groups) [] with
  | error why =>
    rw [hrun] at hagrees
    refine ⟨nofun, fun _ _ => ?_⟩
    cases hread : program.foldlM (shift groups) [] with
    | none => rfl
    | some ts =>
      obtain ⟨t, ht, hnone⟩ := hagrees ts hread
      match ts, ht with
      | [u], ht => exact List.mem_singleton.1 ht ▸ hnone
      | u :: w :: rest, _ => rfl
  | ok ns =>
    rw [hrun] at hagrees
    obtain ⟨ts, hread, hcomputes⟩ := hagrees
    rw [hread]
    cases hcomputes with
    | nil => exact ⟨nofun, fun _ _ => rfl⟩
    | cons hn hrest =>
      cases hrest with
      | cons _ _ => exact ⟨nofun, fun _ _ => rfl⟩
      | nil =>
        refine ⟨?_, nofun⟩
        rintro _ ⟨⟩
        exact hn

end Arithmetic

namespace Expression

/-- Integer arithmetic never wraps. A sign, sum, difference, product, quotient or power of two 64-bit integers is an
integer exactly where the mathematical one fits into 64 bits, and then it is that one. Otherwise it is a double, but for a
quotient by zero, which does not exist; and for an exponent that is negative or takes more than 32 bits it is always one.
So a program whose instructions all give integers comes to its exact value, and fails only where it has none. -/
theorem recalculate_exact :
    (∀ (x y : Int64) (r : Int),
      ((Number.whole x).neg.integer? = some r ↔ r = -x.toInt ∧ Fits r) ∧
      (((Number.whole x).add (.whole y)).integer? = some r ↔ r = x.toInt + y.toInt ∧ Fits r) ∧
      (((Number.whole x).sub (.whole y)).integer? = some r ↔ r = x.toInt - y.toInt ∧ Fits r) ∧
      (((Number.whole x).mul (.whole y)).integer? = some r ↔ r = x.toInt * y.toInt ∧ Fits r) ∧
      ((Number.whole x).div? (.whole y) = none ↔ y.toInt = 0) ∧
      (∀ v, (Number.whole x).div? (.whole y) = some v → (v.integer? = some r ↔ r * y.toInt = x.toInt ∧ Fits r)) ∧
      (((Number.whole x).pow (.whole y)).integer? = some r ↔
        (0 ≤ y.toInt ∧ y.toInt < 2 ^ 32) ∧ r = x.toInt ^ y.toInt.toNat ∧ Fits r)) ∧
    ∀ e : Expression, Instruction.StaysWhole e.groups e.program →
      (∀ n, e.recalculate = .ok n →
        ∃ r : Int, n.integer? = some r ∧ Arithmetic.valueOf? e.groups e.program = some (r : ℚ)) ∧
      (∀ why, e.recalculate = .error why → Arithmetic.valueOf? e.groups e.program = none) :=
  ⟨fun _ _ _ => ⟨Number.integer?_exactOr, Number.integer?_exactOr, Number.integer?_exactOr, Number.integer?_exactOr,
    Number.div?_whole_eq_none_iff, fun _ hv => Number.integer?_of_div?_whole hv, Number.integer?_whole_pow⟩,
    fun _ hwhole => Arithmetic.run_exact hwhole⟩

/-- The lowest 64-bit integer, as a power, and a quarter of it. -/
theorem recalculate_exact_quarter :
    let literal (n : Int64) : PlacedGroup := ⟨.literal { value := .whole n }, ⟨0, 1⟩⟩
    let e : Expression :=
      { formula := ⟨"", []⟩, settings := {}, groups := [literal 2, literal 63]
        program := [.group 0, .operator .sub, .group 1, .operator .pow, .literal (.whole 4), .operator .div] }
    Instruction.StaysWhole e.groups e.program ∧
      e.recalculate.toOption.map (·.integer?) = some (some (-2 ^ 61)) ∧
      Arithmetic.valueOf? e.groups e.program = some (-2 ^ 61) := by
  intro literal e
  have hwhole : Instruction.StaysWhole e.groups e.program := by
    intro front hfront n rest hrun
    have hfront : front ∈ e.program.inits := (List.mem_inits _ _).2 hfront
    change front ∈ [_, _, _, _, _, _, _] at hfront
    simp only [List.mem_cons, List.not_mem_nil, or_false] at hfront
    rcases hfront with rfl | rfl | rfl | rfl | rfl | rfl | rfl <;> cases hrun <;> exact ⟨_, rfl⟩
  obtain ⟨n, hn⟩ : ∃ n, e.recalculate = .ok n := ⟨_, rfl⟩
  obtain ⟨r, hr, hexact⟩ := (recalculate_exact.2 e hwhole).1 n hn
  have hvalue : e.recalculate.toOption.map (·.integer?) = some (some (-2 ^ 61)) := by decide +kernel
  rw [hn] at hvalue
  obtain rfl : r = -2 ^ 61 := Option.some.inj (hr.symm.trans (Option.some.inj hvalue))
  refine ⟨hwhole, by rw [hn]; exact hvalue, ?_⟩
  rw [hexact, Int.cast_neg, Int.cast_pow, Int.cast_ofNat]

end Expression
end Tabletop
