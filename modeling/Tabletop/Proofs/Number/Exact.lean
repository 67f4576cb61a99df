import Mathlib.Algebra.BigOperators.Group.List.Basic
import Mathlib.Algebra.GroupWithZero.Nat
import Mathlib.Algebra.Ring.Int.Defs
import Tabletop.Number.Basic

/-! Whole numbers that are exact, and their sums, which are as long as no running sum leaves the 64-bit range. -/
namespace Tabletop

/-- The integer is a 64-bit one. -/
def Fits (r : Int) : Prop := -2 ^ 63 ≤ r ∧ r < 2 ^ 63

instance (r : Int) : Decidable (Fits r) := inferInstanceAs (Decidable (_ ∧ _))

theorem exists_fit?_of_fits {r : Int} (h : Fits r) : ∃ x, fit? r = some x ∧ x.toInt = r :=
  have hx := Int64.toInt_ofInt_of_le h.1 h.2
  ⟨_, fit?_eq_some_iff.2 hx, hx⟩

private theorem fits_toInt (x : Int64) : Fits x.toInt := ⟨x.le_toInt, x.toInt_lt⟩

theorem fit?_of_not_fits {r : Int} (h : ¬Fits r) : fit? r = none :=
  Option.eq_none_iff_forall_ne_some.2 fun x hx => h (fit?_eq_some_iff.1 hx ▸ fits_toInt x)

theorem map_toInt_fit?_eq_some_iff {r q : Int} : (fit? r).map Int64.toInt = some q ↔ q = r ∧ Fits q := by
  by_cases h : Fits r
  · obtain ⟨x, hx, rfl⟩ := exists_fit?_of_fits h
    rw [hx, Option.map_some, Option.some_inj]
    exact ⟨fun hq => ⟨hq.symm, hq ▸ h⟩, fun hq => hq.1.symm⟩
  · rw [fit?_of_not_fits h]
    exact ⟨nofun, fun hq => absurd (hq.1 ▸ hq.2) h⟩

/-- The absolute value of a sum is at most the sum of the absolute values. -/
theorem natAbs_sum_le (rs : List Int) : rs.sum.natAbs ≤ (rs.map Int.natAbs).sum := by
  induction rs with
  | nil => exact Nat.le_refl _
  | cons r rs ih =>
    rw [List.sum_cons, List.map_cons, List.sum_cons]
    exact Nat.le_trans (Int.natAbs_add_le r rs.sum) (Nat.add_le_add_left ih _)

theorem sum_natAbs_of_nonneg {rs : List Int} (h : ∀ r ∈ rs, 0 ≤ r) : ((rs.map Int.natAbs).sum : Int) = rs.sum := by
  induction rs with
  | nil => rfl
  | cons r rs ih =>
    obtain ⟨hr, hrs⟩ := List.forall_mem_cons.1 h
    rw [List.map_cons, List.sum_cons, List.sum_cons, Int.natCast_add, ih hrs, Int.natAbs_of_nonneg hr]

/-- Where the absolute values sum up to a 64-bit integer, so do all running sums. -/
theorem fits_sum_of_prefix {rs front : List Int} (h : (rs.map Int.natAbs).sum < 2 ^ 63) (hfront : front <+: rs) :
    Fits front.sum := by
  obtain ⟨back, rfl⟩ := hfront
  have hle := natAbs_sum_le front
  rw [List.map_append, List.sum_append] at h
  constructor <;> omega

/-- So do the sums of its parts, when a list is cut into parts that are summed up first. -/
theorem fits_sum_of_parts {parts : List (List Int)} {front : List Int}
    (h : (parts.flatten.map Int.natAbs).sum < 2 ^ 63) (hfront : front <+: parts.map List.sum) : Fits front.sum := by
  obtain ⟨first, ⟨rest, rfl⟩, rfl⟩ := List.prefix_map_iff.1 hfront
  rw [← List.sum_flatten]
  exact fits_sum_of_prefix h (by rw [List.flatten_append]; exact List.prefix_append _ _)

theorem natAbs_sum_lt_of_mem {parts : List (List Int)} {part : List Int}
    (h : (parts.flatten.map Int.natAbs).sum < 2 ^ 63) (hpart : part ∈ parts) : (part.map Int.natAbs).sum < 2 ^ 63 := by
  obtain ⟨before, behind, rfl⟩ := List.append_of_mem hpart
  rw [List.flatten_append, List.flatten_cons, List.map_append, List.map_append, List.sum_append, List.sum_append] at h
  omega

namespace Number

/-- The integer that a number is, if it is no double. -/
def integer? : Number → Option Int
  | whole x => some x.toInt
  | float _ => none

theorem integer?_eq_some_iff {n : Number} {r : Int} : n.integer? = some r ↔ ∃ x : Int64, n = .whole x ∧ x.toInt = r := by
  constructor
  · intro h
    cases n with
    | whole x => exact ⟨x, rfl, Option.some.inj h⟩
    | float f => cases h
  · rintro ⟨x, rfl, rfl⟩
    rfl

theorem integer?_exactOr {r q : Int} {f : Float} : (exactOr r f).integer? = some q ↔ q = r ∧ Fits q := by
  rw [← map_toInt_fit?_eq_some_iff, exactOr]
  cases fit? r <;> rfl

private theorem integer?_add {a b : Number} {r q : Int} (ha : a.integer? = some r) (hb : b.integer? = some q)
    (h : Fits (r + q)) : (a.add b).integer? = some (r + q) := by
  obtain ⟨x, rfl, rfl⟩ := integer?_eq_some_iff.1 ha
  obtain ⟨y, rfl, rfl⟩ := integer?_eq_some_iff.1 hb
  exact integer?_exactOr.2 ⟨rfl, h⟩

/-- Adding up from the left is exact while every running sum fits. -/
theorem integer?_foldl_add {ns : List Number} {rs : List Int} (hns : ns.map integer? = rs.map some) {a : Number} {r : Int}
    (ha : a.integer? = some r) (hfits : ∀ front, front <+: rs → Fits (r + front.sum)) :
    (ns.foldl add a).integer? = some (r + rs.sum) := by
  induction ns generalizing a r rs with
  | nil =>
    obtain rfl : rs = [] := List.map_eq_nil_iff.1 hns.symm
    rw [List.sum_nil, Int.add_zero]
    exact ha
  | cons n ns ih =>
    obtain ⟨q, qs, rfl, hq, hqs⟩ := List.map_eq_cons_iff.1 hns.symm
    have hfirst : Fits (r + q) := by
      have hone := hfits [q] (List.prefix_append [q] qs)
      rwa [List.sum_singleton] at hone
    have hrest := ih hqs.symm (integer?_add ha hq.symm hfirst) fun front hfront => by
      have hlonger := hfits (q :: front) (List.cons_prefix_cons.2 ⟨rfl, hfront⟩)
      rwa [List.sum_cons, ← Int.add_assoc] at hlonger
    rw [List.foldl_cons, List.sum_cons, ← Int.add_assoc]
    exact hrest

theorem integer?_sum {ns : List Number} {rs : List Int} (hns : ns.map integer? = rs.map some)
    (hfits : ∀ front, front <+: rs → Fits front.sum) : (sum ns).integer? = some rs.sum := by
  have hsum := integer?_foldl_add hns (show zero.integer? = some 0 from rfl) fun front hfront => by
    rw [Int.zero_add]
    exact hfits front hfront
  rwa [Int.zero_add] at hsum

theorem eq_of_integer?_eq_some {a b : Number} {r : Int} (ha : a.integer? = some r) (hb : b.integer? = some r) : a = b := by
  obtain ⟨x, rfl, hx⟩ := integer?_eq_some_iff.1 ha
  obtain ⟨y, rfl, hy⟩ := integer?_eq_some_iff.1 hb
  rw [Int64.toInt_inj.1 (hx.trans hy.symm)]

end Number
end Tabletop
