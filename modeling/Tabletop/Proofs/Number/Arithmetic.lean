import Mathlib.Algebra.Ring.Parity
import Tabletop.Proofs.Number.Exact
import Tabletop.Proofs.Number.Order

/-! Arithmetic on whole numbers. An operation gives the exact integer wherever that is a 64-bit one, and a double
elsewhere. -/
namespace Tabletop.Number
variable {x y : Int64} {q : Int}

private theorem whole_beq_zero_iff : (whole y == zero) = true ↔ y.toInt = 0 := by
  rw [zero, whole_beq_iff, decide_eq_true_eq, nearestWhole_eq_iff (by decide)]
  rfl

theorem div?_whole_eq_none_iff : (whole x).div? (whole y) = none ↔ y.toInt = 0 := by
  rw [← whole_beq_zero_iff, div?]
  split
  · rename_i hzero
    exact ⟨fun _ => hzero, fun _ => rfl⟩
  · rename_i hzero
    refine ⟨fun h => ?_, fun h => absurd h hzero⟩
    split at h <;> cases h

/-- A quotient is an integer only where no rest is left. -/
theorem integer?_of_div?_whole {v : Number} (h : (whole x).div? (whole y) = some v) :
    v.integer? = some q ↔ q * y.toInt = x.toInt ∧ Fits q := by
  have hy : y.toInt ≠ 0 := fun hy => by
    rw [div?_whole_eq_none_iff.2 hy] at h
    cases h
  rw [div?, if_neg (whole_beq_zero_iff.not.2 hy)] at h
  split at h
  · rename_i hrest
    cases h
    have hquotient : q = x.toInt / y.toInt ↔ q * y.toInt = x.toInt := by
      rw [eq_comm, Int.ediv_eq_iff_eq_mul_left hy (Int.dvd_of_emod_eq_zero hrest), eq_comm]
    rw [integer?_exactOr, hquotient]
  · rename_i hrest
    cases h
    refine ⟨nofun, fun hq => absurd ?_ hrest⟩
    rw [← hq.1, Int.mul_emod_left]

/-- Of zero, one and its negative there are no more than two powers behind the first. -/
theorem pow_eq_of_natAbs_le_one {b : Int} (h : b.natAbs ≤ 1) (n : Nat) :
    b ^ (if n = 0 then 0 else 2 - n % 2) = b ^ n := by
  split
  · rename_i hn
    rw [hn]
  · rename_i hn
    have hpositive : 2 - n % 2 ≠ 0 := by omega
    obtain rfl | rfl | rfl : b = 0 ∨ b = 1 ∨ b = -1 := by omega
    · rw [zero_pow hpositive, zero_pow hn]
    · rw [one_pow, one_pow]
    · exact neg_one_pow_congr (by rw [Nat.even_iff, Nat.even_iff]; omega)

/-- The power of a large exponent is that of a small one, or too large. -/
theorem wholePow?_eq (b : Int) (n : Nat) : wholePow? b n = fit? (b ^ n) := by
  rw [wholePow?]
  split
  · rename_i hsmall
    exact congrArg fit? (pow_eq_of_natAbs_le_one hsmall n)
  · split
    · rfl
    · rename_i hb hn
      refine (fit?_of_not_fits fun hfits => ?_).symm
      have hlarge : 2 ^ 64 ≤ (b ^ n).natAbs :=
        calc 2 ^ 64
          _ ≤ 2 ^ n := Nat.pow_le_pow_right Nat.two_pos (Nat.le_of_not_lt hn)
          _ ≤ b.natAbs ^ n := Nat.pow_le_pow_left (by omega) n
          _ = (b ^ n).natAbs := (Int.natAbs_pow b n).symm
      have hlow := hfits.1
      have hhigh := hfits.2
      omega

theorem integer?_whole_pow : ((whole x).pow (whole y)).integer? = some q ↔
    (0 ≤ y.toInt ∧ y.toInt < 2 ^ 32) ∧ q = x.toInt ^ y.toInt.toNat ∧ Fits q := by
  have hsize : (UInt32.size : Int) = 2 ^ 32 := rfl
  rw [pow, hsize]
  split
  · rename_i hrange
    rw [wholePow?_eq, ← map_toInt_fit?_eq_some_iff, and_iff_right hrange]
    cases fit? (x.toInt ^ y.toInt.toNat) <;> rfl
  · rename_i hrange
    exact ⟨nofun, fun h => absurd h.1 hrange⟩

end Tabletop.Number
