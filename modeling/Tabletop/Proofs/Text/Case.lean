import Tabletop.Text.Case

/-! Lower case is final: a text in lower case is not changed by lowering it again, and lowering makes no bar. The
letters with a small form come in runs, so this is a check of the runs against each other. -/
namespace Tabletop.Text

namespace CaseRun

/-- The letters of a run. -/
def letters (r : CaseRun) : List Nat := List.range' r.first ((r.last - r.first) / r.step + 1) r.step

/-- The small form of a letter of the run. -/
def lower (r : CaseRun) (n : Nat) : Nat := ((n : Int) + r.shift).toNat

private theorem mem_letters {r : CaseRun} {c : Char} (h : r.contains c = true) : c.toNat ∈ r.letters := by
  simp only [contains, Bool.and_eq_true, decide_eq_true_eq, beq_iff_eq] at h
  obtain ⟨⟨hfirst, hlast⟩, hstep⟩ := h
  refine List.mem_range'.2 ⟨(c.toNat - r.first) / r.step, ?_, ?_⟩
  · exact Nat.lt_succ_of_le (Nat.div_le_div_right (Nat.sub_le_sub_right hlast _))
  · rw [Nat.mul_div_cancel' (Nat.dvd_of_mod_eq_zero hstep), Nat.add_sub_cancel' hfirst]

end CaseRun

/-- A set of numbers, each a bit of one number. -/
def bits (ns : List Nat) : Nat := ns.foldr (fun n set => set ||| 1 <<< n) 0

private theorem testBit_bits {ns : List Nat} {n : Nat} (h : n ∈ ns) : (bits ns).testBit n = true := by
  induction ns with
  | nil => cases h
  | cons m ns ih =>
    rw [bits, List.foldr_cons, ← bits, Nat.testBit_or]
    rcases List.mem_cons.1 h with rfl | h
    · simp [Nat.testBit_shiftLeft]
    · simp [ih h]

private theorem not_mem_of_bits {ns ms : List Nat} (h : bits ns &&& bits ms = 0) {n : Nat} (hn : n ∈ ns) : n ∉ ms := by
  intro hm
  have hboth : (bits ns &&& bits ms).testBit n = true := by
    rw [Nat.testBit_and, testBit_bits hn, testBit_bits hm, Bool.and_self]
  rw [h, Nat.zero_testBit] at hboth
  cases hboth

/-- A letter that is not its own lower case. -/
def IsCapital (c : Char) : Prop := c = 'İ' ∨ ∃ r ∈ caseRuns, r.contains c = true

/-- The code points of capitals, and that of the bar. -/
def capitals : List Nat := '|'.toNat :: 'İ'.toNat :: caseRuns.flatMap CaseRun.letters

/-- The code points of the small forms, and zero, which stands for what is no code point. -/
def smalls : List Nat :=
  0 :: 'ς'.toNat :: 'σ'.toNat :: 'i'.toNat :: '\u0307'.toNat :: caseRuns.flatMap fun r => r.letters.map r.lower

private theorem smalls_apart_capitals : bits smalls &&& bits capitals = 0 := by decide +kernel

private theorem not_isCapital_of_mem_smalls {c : Char} (h : c.toNat ∈ smalls) : ¬ IsCapital c := by
  intro hc
  refine not_mem_of_bits smalls_apart_capitals h ?_
  rcases hc with rfl | ⟨r, hr, hc⟩
  · simp [capitals]
  · have hletters := List.mem_flatMap.2 ⟨r, hr, CaseRun.mem_letters hc⟩
    simp [capitals, hletters]

private theorem bar_not_mem_smalls : '|'.toNat ∉ smalls := fun h =>
  not_mem_of_bits smalls_apart_capitals h List.mem_cons_self

private theorem mem_smalls {r : CaseRun} (hr : r ∈ caseRuns) {c : Char} (hc : r.contains c = true) :
    r.lower c.toNat ∈ smalls := by
  have hlower : r.lower c.toNat ∈ caseRuns.flatMap fun r => r.letters.map r.lower :=
    List.mem_flatMap.2 ⟨r, hr, List.mem_map_of_mem (CaseRun.mem_letters hc)⟩
  simp [smalls, hlower]

private theorem toNat_ofNat_mem_smalls {n : Nat} (h : n ∈ smalls) : (Char.ofNat n).toNat ∈ smalls := by
  by_cases hvalid : n.isValidChar
  · have hchar : Char.ofNat n = Char.ofNatAux n hvalid := dif_pos hvalid
    exact hchar ▸ h
  · have hchar : (Char.ofNat n).toNat = 0 := congrArg Char.toNat (dif_neg hvalid)
    exact hchar ▸ List.mem_cons_self

/-- The plain letters of the alphabet, which are lowered without the runs, are the first of them. -/
theorem contains_alphabet {c : Char} : CaseRun.contains ⟨0x41, 0x5a, 1, 32⟩ c = true ↔ 'A' ≤ c ∧ c ≤ 'Z' := by
  simp [CaseRun.contains, Char.le_def, UInt32.le_iff_toNat_le, Nat.mod_one]

private theorem le_of_isCapital {c : Char} (hascii : c.toNat < 0x80) (h : IsCapital c) : 'A' ≤ c ∧ c ≤ 'Z' := by
  have hall : (caseRuns.flatMap CaseRun.letters).all (fun n => 0x80 ≤ n || 0x41 ≤ n && n ≤ 0x5a) = true := by
    decide +kernel
  rcases h with rfl | ⟨r, hr, hc⟩
  · exact absurd hascii (by decide)
  · have hmem := List.all_eq_true.1 hall _ (List.mem_flatMap.2 ⟨r, hr, CaseRun.mem_letters hc⟩)
    simp only [Bool.or_eq_true, Bool.and_eq_true, decide_eq_true_eq] at hmem
    simp [Char.le_def, UInt32.le_iff_toNat_le]
    omega

/-- A character is its own lower case, or a capital with small forms. -/
theorem lowerChar_cases (c : Char) :
    ¬ IsCapital c ∧ lowerChar c = [c] ∨ IsCapital c ∧ ∀ d ∈ lowerChar c, d.toNat ∈ smalls := by
  rw [lowerChar]
  split
  · rename_i hascii
    by_cases hupper : 'A' ≤ c ∧ c ≤ 'Z'
    · have hrun := contains_alphabet.2 hupper
      refine .inr ⟨.inr ⟨_, List.mem_cons_self, hrun⟩, List.forall_mem_singleton.2 ?_⟩
      have hsmall : c.toNat + 32 ∈ smalls := mem_smalls List.mem_cons_self hrun
      have hlow : c.val.toNat + 32 < 2 ^ 32 := Nat.lt_trans (Nat.add_lt_add_right hascii 32) (by decide)
      have hvalue : (c.val + ('a'.val - 'A'.val)).toNat = c.toNat + 32 := by
        rw [UInt32.toNat_add]
        exact Nat.mod_eq_of_lt hlow
      have hlower : c.toLower.toNat = (c.val + ('a'.val - 'A'.val)).toNat := congrArg Char.toNat (dif_pos hupper)
      rwa [hlower, hvalue]
    · have hlower : c.toLower = c := dif_neg hupper
      exact .inl ⟨fun hc => hupper (le_of_isCapital hascii hc), by rw [hlower]⟩
  · split
    · rename_i hdotted
      exact .inr ⟨.inl hdotted, by simp [smalls]⟩
    · rename_i hdotted
      cases hfind : caseRuns.find? (·.contains c) with
      | some r =>
        have hr := List.mem_of_find?_eq_some hfind
        have hc : r.contains c = true := (List.find?_eq_some_iff_append.1 hfind).1
        exact .inr ⟨.inr ⟨r, hr, hc⟩, List.forall_mem_singleton.2 (toNat_ofNat_mem_smalls (mem_smalls hr hc))⟩
      | none =>
        rw [List.find?_eq_none] at hfind
        refine .inl ⟨?_, rfl⟩
        rintro (hc | ⟨r, hr, hc⟩)
        · exact hdotted hc
        · exact hfind r hr hc

private theorem isCapital_sigma : IsCapital 'Σ' := by
  have hany : caseRuns.any (·.contains 'Σ') = true := by decide +kernel
  exact .inr (List.any_eq_true.1 hany)

private theorem lowerAfter_of_not_isCapital {before cs : List Char} (h : ∀ c ∈ cs, ¬ IsCapital c) :
    lowerAfter before cs = cs := by
  induction cs generalizing before with
  | nil => rfl
  | cons c cs ih =>
    obtain ⟨hc, hcs⟩ := List.forall_mem_cons.1 h
    have hsigma : c ≠ 'Σ' := fun heq => hc (heq ▸ isCapital_sigma)
    have hlower : lowerChar c = [c] := (lowerChar_cases c).elim And.right fun hsmall => absurd hsmall.1 hc
    rw [lowerAfter, if_neg hsigma, hlower, ih hcs]
    rfl

/-- What is left by lowering was there before and is no capital, or is a small form. -/
theorem mem_lowerAfter {before cs : List Char} {d : Char} (h : d ∈ lowerAfter before cs) :
    d ∈ cs ∧ ¬ IsCapital d ∨ d.toNat ∈ smalls := by
  induction cs generalizing before with
  | nil => cases h
  | cons c cs ih =>
    rw [lowerAfter, List.mem_append] at h
    rcases h with h | h
    · split at h
      · right
        rw [List.mem_singleton.1 h]
        split <;> simp [smalls]
      · rcases lowerChar_cases c with ⟨hc, hlower⟩ | ⟨-, hsmall⟩
        · rw [hlower, List.mem_singleton] at h
          subst h
          exact .inl ⟨List.mem_cons_self, hc⟩
        · exact .inr (hsmall d h)
    · exact (ih h).imp_left fun hd => ⟨List.mem_cons_of_mem c hd.1, hd.2⟩

theorem lowerAfter_lowerAfter (before before' cs : List Char) :
    lowerAfter before' (lowerAfter before cs) = lowerAfter before cs := by
  refine lowerAfter_of_not_isCapital fun d hd => ?_
  rcases mem_lowerAfter hd with ⟨-, hsmall⟩ | hsmall
  · exact hsmall
  · exact not_isCapital_of_mem_smalls hsmall

theorem bar_mem_of_mem_lowerAfter {before cs : List Char} (h : '|' ∈ lowerAfter before cs) : '|' ∈ cs := by
  rcases mem_lowerAfter h with ⟨hmem, -⟩ | hsmall
  · exact hmem
  · exact absurd hsmall bar_not_mem_smalls

end Tabletop.Text
