import Tabletop.Text.Blank
import Tabletop.Text.Digits

/-! Digits, and numbers written out and read again. -/
namespace Tabletop.Text

theorem isDigit_eq_false_of_isBlank {c : Char} (h : isBlank c = true) : isDigit c = false := by
  cases hd : isDigit c with
  | false => rfl
  | true =>
    simp only [isDigit, Bool.and_eq_true, decide_eq_true_eq, Char.le_def, UInt32.le_iff_toNat_le] at hd
    have hlow : 48 ≤ c.toNat := hd.1
    have hhigh : c.toNat ≤ 57 := hd.2
    simp [isBlank, inRanges, blankRanges] at h
    omega

theorem isDigit_of_mem_toString {n : Nat} {c : Char} (h : c ∈ (toString n).toList) : isDigit c = true := by
  rw [Nat.toString_eq_ofList_toDigits, String.toList_ofList] at h
  have hdigit := Nat.isDigit_of_mem_toDigits (by omega) (by omega) h
  simp only [Char.isDigit, Bool.and_eq_true, decide_eq_true_eq] at hdigit
  simp only [isDigit, Bool.and_eq_true, decide_eq_true_eq]
  exact hdigit

theorem toString_ne_nil (n : Nat) : (toString n).toList ≠ [] := by
  rw [Nat.toString_eq_ofList_toDigits, String.toList_ofList]
  exact Nat.toDigits_ne_nil

theorem readNat?_toString (n : Nat) : readNat? (toString n).toList = some n := by
  have hdigits : (toString n).toList.all isDigit := List.all_eq_true.2 fun _ => isDigit_of_mem_toString
  rw [readNat?, if_pos ⟨toString_ne_nil n, hdigits⟩, Nat.toString_eq_ofList_toDigits, String.toList_ofList]
  have hvalue : Nat.ofDigitChars 10 (Nat.toDigits 10 n) 0 = _ := Nat.ofDigitChars_eq_foldl
  rw [Nat.ofDigitChars_ten_toDigits] at hvalue
  exact congrArg some hvalue.symm

theorem readNatUpTo?_toString {limit n : Nat} (h : n ≤ limit) : readNatUpTo? limit (toString n).toList = some n := by
  rw [readNatUpTo?, readNat?_toString, Option.filter, if_pos (decide_eq_true h)]

theorem readWhole?_of_isDigit {cs : List Char} (h : ∀ c ∈ cs, isDigit c = true) :
    readWhole? cs = (readNat? cs).bind fun n => fit? n := by
  rw [readWhole?]
  rintro cs rfl
  exact absurd (h '-' List.mem_cons_self) (by decide)

theorem readWhole?_toString {n : Nat} {x : Int64} (h : x.toInt = n) : readWhole? (toString n).toList = some x := by
  rw [readWhole?_of_isDigit fun c => isDigit_of_mem_toString, readNat?_toString, Option.bind_some, ← h, fit?_toInt]

/-- The sign in front of the digits of an integer. -/
def signOf (i : Int) : List Char := if i < 0 then ['-'] else []

theorem toList_toString_int (i : Int) : (toString i).toList = signOf i ++ (toString i.natAbs).toList := by
  cases i with
  | ofNat n => rfl
  | negSucc n =>
    have hsign : signOf (.negSucc n) = ['-'] := if_pos (Int.negSucc_lt_zero n)
    have hwritten : toString (Int.negSucc n) = "-" ++ toString (n + 1) := rfl
    rw [hsign, hwritten, String.toList_append]
    rfl

theorem toList_toString_of_nonneg {i : Int} (h : 0 ≤ i) : (toString i).toList = (toString i.natAbs).toList := by
  rw [toList_toString_int, signOf, if_neg (Int.not_lt.2 h), List.nil_append]

/-- A number below ten is written as one digit. -/
theorem exists_digit_toString {i : Int} (hlow : 0 ≤ i) (hhigh : i ≤ 9) :
    ∃ c, (toString i).toList = [c] ∧ isDigit c = true ∧ digitValue c = i.toNat := by
  have hall : ∀ n : Fin 10, isDigit (Nat.digitChar n) = true ∧ digitValue (Nat.digitChar n) = n := by decide
  obtain ⟨n, rfl⟩ := Int.eq_ofNat_of_zero_le hlow
  have hlt : n < 10 := by omega
  refine ⟨Nat.digitChar n, ?_, hall ⟨n, hlt⟩⟩
  rw [toList_toString_of_nonneg hlow, Int.natAbs_natCast, Nat.toString_eq_ofList_toDigits, String.toList_ofList,
    Nat.toDigits_of_lt_base hlt]

theorem isDigit_or_minus_of_mem_toString {i : Int} {c : Char} (h : c ∈ (toString i).toList) :
    isDigit c = true ∨ c = '-' := by
  rw [toList_toString_int, List.mem_append, signOf] at h
  rcases h with h | h
  · split at h
    · exact .inr (List.mem_singleton.1 h)
    · cases h
  · exact .inl (isDigit_of_mem_toString h)

theorem exists_cons_toString (i : Int) :
    ∃ c cs, (toString i).toList = c :: cs ∧ (isDigit c = true ∨ c = '-' ∧ i < 0) := by
  rw [toList_toString_int, signOf]
  split
  · rename_i hneg
    exact ⟨'-', _, rfl, .inr ⟨rfl, hneg⟩⟩
  · obtain ⟨c, cs, hcs⟩ := List.exists_cons_of_ne_nil (toString_ne_nil i.natAbs)
    exact ⟨c, cs, hcs, .inl (isDigit_of_mem_toString (hcs ▸ List.mem_cons_self))⟩

theorem readWhole?_toString_toInt (x : Int64) : readWhole? (toString x.toInt).toList = some x := by
  rw [toList_toString_int, signOf]
  split
  · rename_i hneg
    rw [List.singleton_append, readWhole?, readNat?_toString, Option.bind_some, Int.ofNat_natAbs_of_nonpos (by omega),
      Int.neg_neg, fit?_toInt]
  · rename_i hpos
    exact readWhole?_toString (Int.natAbs_of_nonneg (by omega)).symm

end Tabletop.Text
