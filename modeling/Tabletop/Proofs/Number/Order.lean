import Mathlib.Data.Int.Order.Basic
import Mathlib.Order.Compare
import Tabletop.Number.Basic

/-! Whole numbers compared through the doubles nearest to them. Where one of the two is a double itself, nothing is lost
that way. -/
namespace Tabletop

/-- Rounding does not lead below the first number that is rounded. -/
theorem exactLimit_le_roundTo53 {n : Nat} (h : exactLimit ≤ n) : exactLimit ≤ roundTo53 n := by
  have hlimit : exactLimit = 2 ^ 53 := rfl
  have hne : n ≠ 0 := by omega
  have hlog : 53 ≤ n.log2 := (Nat.le_log2 hne).2 h
  have hleading : 2 ^ 52 * 2 ^ (n.log2 - 52) = 2 ^ n.log2 := by rw [← Nat.pow_add, Nat.add_sub_of_le (by omega)]
  have hlow : 2 ^ 52 ≤ n / 2 ^ (n.log2 - 52) := by
    rw [Nat.le_div_iff_mul_le (Nat.two_pow_pos _), hleading]
    exact Nat.log2_self_le hne
  have hround : exactLimit ≤ n / 2 ^ (n.log2 - 52) * 2 ^ (n.log2 - 52) :=
    calc exactLimit
      _ ≤ 2 ^ n.log2 := Nat.pow_le_pow_right Nat.two_pos hlog
      _ = 2 ^ 52 * 2 ^ (n.log2 - 52) := hleading.symm
      _ ≤ n / 2 ^ (n.log2 - 52) * 2 ^ (n.log2 - 52) := Nat.mul_le_mul_right _ hlow
  rw [roundTo53, if_neg (Nat.not_lt.2 h)]
  simp only [Nat.one_shiftLeft]
  split
  · exact hround
  · rw [Nat.add_one_mul]
    exact Nat.le_add_right_of_le hround

private theorem nearestWhole_of_le {v : Int} (h : exactLimit ≤ v) : exactLimit ≤ nearestWhole v := by
  rw [nearestWhole, if_pos (by omega)]
  have hround := @exactLimit_le_roundTo53 v.toNat (by omega)
  omega

private theorem nearestWhole_of_le_neg {v : Int} (h : v ≤ -exactLimit) : nearestWhole v ≤ -exactLimit := by
  have hlimit : 0 < exactLimit := by decide
  rw [nearestWhole, if_neg (by omega)]
  have hround := @exactLimit_le_roundTo53 (-v).toNat (by omega)
  omega

section
variable {a v : Int}

/-- Rounding does not change how a number that fits 53 bits compares to another. -/
theorem nearestWhole_le_iff (h : a.natAbs < exactLimit) : nearestWhole a ≤ nearestWhole v ↔ a ≤ v := by
  rw [nearestWhole_of_natAbs_lt h]
  by_cases hv : v.natAbs < exactLimit
  · rw [nearestWhole_of_natAbs_lt hv]
  · rcases Int.le_total 0 v with hpos | hneg
    · have hfar := @nearestWhole_of_le v (by omega)
      omega
    · have hfar := @nearestWhole_of_le_neg v (by omega)
      omega

theorem nearestWhole_ge_iff (h : a.natAbs < exactLimit) : nearestWhole v ≤ nearestWhole a ↔ v ≤ a := by
  rw [nearestWhole_of_natAbs_lt h]
  by_cases hv : v.natAbs < exactLimit
  · rw [nearestWhole_of_natAbs_lt hv]
  · rcases Int.le_total 0 v with hpos | hneg
    · have hfar := @nearestWhole_of_le v (by omega)
      omega
    · have hfar := @nearestWhole_of_le_neg v (by omega)
      omega

theorem nearestWhole_eq_iff (h : a.natAbs < exactLimit) : nearestWhole v = nearestWhole a ↔ v = a := by
  rw [Int.le_antisymm_iff, nearestWhole_ge_iff h, nearestWhole_le_iff h, ← Int.le_antisymm_iff]

end

namespace Number

/-- A number is at most another as the comparison of the two tells. -/
theorem compare?_le_iff (x y : Int64) :
    ((whole x).compare? (whole y) == some .lt || (whole x).compare? (whole y) == some .eq) =
      decide (nearestWhole x.toInt ≤ nearestWhole y.toInt) := by
  rw [compare?]
  rcases Int.lt_trichotomy (nearestWhole x.toInt) (nearestWhole y.toInt) with hlt | heq | hgt
  · rw [compare_lt_iff_lt.2 hlt, decide_eq_true (Int.le_of_lt hlt)]
    rfl
  · rw [compare_eq_iff_eq.2 heq, decide_eq_true (Int.le_of_eq heq)]
    rfl
  · rw [compare_gt_iff_gt.2 hgt, decide_eq_false (Int.not_le.2 hgt)]
    rfl

theorem whole_beq_iff (x y : Int64) :
    (whole x == whole y) = decide (nearestWhole x.toInt = nearestWhole y.toInt) := by
  change (some (compare (nearestWhole x.toInt) (nearestWhole y.toInt)) == some .eq) = _
  rw [Bool.eq_iff_iff, beq_iff_eq, Option.some_inj, compare_eq_iff_eq, decide_eq_true_eq]

end Number
end Tabletop
