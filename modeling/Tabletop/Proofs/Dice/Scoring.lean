import Tabletop.Proofs.Dice.Order
import Tabletop.Proofs.Number.Exact

/-! Pools of successes. Each die of a scored pool is a failure, a success or neither, and the pool's sum is the number
of successes less that of failures. Of several `-=` conditions only the first one is heeded, and the others name no
failures. -/
namespace Tabletop

namespace Condition
variable {conditions : List Condition} {value : Number}

/-- Whether a value equals the bound of a `-=` condition. -/
def anyFails (conditions : List Condition) (value : Number) : Bool :=
  conditions.any fun c => c.isNegate && c.bound == value

/-- Whether a value meets a condition of another kind. -/
def anyPasses (conditions : List Condition) (value : Number) : Bool :=
  conditions.any fun c => !c.isNegate && c.isMetBy value

/-- The conditions that scoring goes by: all but the `-=` conditions behind the first of them. -/
def heeded : List Condition → List Condition
  | [] => []
  | c :: conditions => c :: if c.isNegate then conditions.filter (!·.isNegate) else heeded conditions

/-- A `-=` condition is never met by itself. -/
theorem isMetBy_of_isNegate {c : Condition} (h : c.isNegate = true) (value : Number) : c.isMetBy value = false := by
  obtain ⟨comparison, bound⟩ := c
  cases comparison <;> simp_all [isNegate, isMetBy, Comparison.accepts]

private theorem anyMet_eq_anyPasses (h : conditions ≠ []) (value : Number) :
    anyMet conditions value = anyPasses conditions value := by
  have hsame (c : Condition) : (!c.isNegate && c.isMetBy value) = c.isMetBy value := by
    cases hc : c.isNegate with
    | true => rw [isMetBy_of_isNegate hc, Bool.and_false]
    | false => rw [Bool.not_false, Bool.true_and]
  simp only [anyMet, anyPasses, hsame, List.isEmpty_eq_false_iff.2 h, Bool.false_or]

private theorem anyPasses_filter (conditions : List Condition) (value : Number) :
    anyPasses (conditions.filter (!·.isNegate)) value = anyPasses conditions value := by
  rw [anyPasses, List.any_filter]
  simp [anyPasses]

private theorem anyPasses_heeded (conditions : List Condition) (value : Number) :
    anyPasses (heeded conditions) value = anyPasses conditions value := by
  induction conditions with
  | nil => rfl
  | cons c conditions ih =>
    have hrest : anyPasses (if c.isNegate then conditions.filter (!·.isNegate) else heeded conditions) value =
        anyPasses conditions value := by
      split
      · exact anyPasses_filter conditions value
      · exact ih
    simp only [anyPasses, heeded, List.any_cons] at hrest ⊢
    rw [hrest]

private theorem anyFails_filter (conditions : List Condition) (value : Number) :
    anyFails (conditions.filter (!·.isNegate)) value = false := by
  simp +contextual [anyFails]

/-- The failures that the heeded conditions name are those of the first `-=` condition. -/
theorem anyFails_heeded (conditions : List Condition) (value : Number) :
    anyFails (heeded conditions) value = ((conditions.find? (·.isNegate)).map (·.bound)).any (· == value) := by
  induction conditions with
  | nil => rfl
  | cons c conditions ih =>
    have hcons (rest : List Condition) :
        anyFails (c :: rest) value = ((c.isNegate && c.bound == value) || anyFails rest value) := List.any_cons
    rw [heeded, hcons]
    cases hc : c.isNegate with
    | true =>
      rw [if_pos rfl, anyFails_filter, List.find?_cons_of_pos hc]
      simp
    | false =>
      rw [if_neg Bool.false_ne_true, ih, List.find?_cons_of_neg (by simp [hc])]
      simp

/-- The heeded conditions name no failure that the others do not. -/
theorem anyFails_of_heeded (h : anyFails (heeded conditions) value = true) : anyFails conditions value = true := by
  rw [anyFails_heeded, Option.any_map, Option.any_eq_true] at h
  obtain ⟨c, hfind, hbound⟩ := h
  have hnegate : c.isNegate = true := List.find?_some hfind
  rw [anyFails, List.any_eq_true]
  exact ⟨c, List.mem_of_find?_eq_some hfind, by rw [hnegate]; exact hbound⟩

end Condition

/-- What scoring does to a die under some conditions. What is shown of the die stays. -/
structure Die.Scored (conditions : List Condition) (d after : Die) : Prop where
  shown : after.shown = d.shown
  failure : Condition.anyFails conditions d.value = true → after.total = .whole (-1) ∧ Tag.failure ∈ after.tags
  success : Condition.anyFails conditions d.value = false → Condition.anyPasses conditions d.value = true →
    after.total = .whole 1 ∧ Tag.success ∈ after.tags
  other : Condition.anyFails conditions d.value = false → Condition.anyPasses conditions d.value = false →
    after.total = .whole 0 ∧ after.tags = d.tags

namespace DiceSequence
variable {s : DiceSequence} {dice : List (Nat × Die)} {conditions : List Condition}

/-- The dice that fail, and the dice that pass and do not fail. -/
def failures (s : DiceSequence) (conditions : List Condition) : Nat :=
  s.toList.countP fun d => Condition.anyFails conditions d.value

def successes (s : DiceSequence) (conditions : List Condition) : Nat :=
  s.toList.countP fun d => !Condition.anyFails conditions d.value && Condition.anyPasses conditions d.value

/-- A pool counts another one's successes less its failures. -/
structure Counts (t s : DiceSequence) (conditions : List Condition) : Prop where
  dice : List.Forall₂ (Die.Scored conditions) s.toList t.toList
  sum : t.sum.integer? = some ((s.successes conditions : Int) - s.failures conditions)

/-- Changing every die one after the other changes each of them once. -/
theorem InOrder.foldl_modify {front : List (Nat × Die)} (h : s.InOrder (front ++ dice)) (f : Die → Die) :
    ((dice.map (·.1)).foldl (fun s id => s.modify id f) s).InOrder (front ++ dice.map fun p => (p.1, f p.2)) := by
  induction dice generalizing s front with
  | nil => exact h
  | cons p dice ih =>
    have hfirst := h.modify_mid f
    rw [List.append_cons] at hfirst
    have hrest := ih hfirst
    rwa [← List.append_cons] at hrest

private theorem InOrder.score (h : s.InOrder dice) (conditions : List Condition) :
    (s.score conditions).InOrder (dice.map fun p => (p.1, scored conditions p.2)) := by
  have hall : s.InOrder ([] ++ dice) := h
  rw [DiceSequence.score, h.ids]
  exact hall.foldl_modify (scored conditions)

private theorem toList_score (hs : s.Built) (conditions : List Condition) :
    (s.score conditions).toList = s.toList.map (scored conditions) := by
  obtain ⟨dice, h⟩ := hs.exists_inOrder
  rw [(h.score conditions).toList, h.toList, List.map_map, List.map_map]
  rfl

end DiceSequence

namespace Die
variable {conditions : List Condition} {d : Die}

/-- What a die of a scored pool adds to it. -/
def tally (conditions : List Condition) (d : Die) : Int :=
  if Condition.anyFails conditions d.value then -1 else if Condition.anyPasses conditions d.value then 1 else 0

private theorem scored_eq (hne : conditions ≠ []) (d : Die) :
    DiceSequence.scored conditions d =
      if Condition.anyFails (Condition.heeded conditions) d.value then { d with value := .whole (-1) }.tag .failure
      else if Condition.anyPasses (Condition.heeded conditions) d.value then { d with value := .one }.tag .success
      else { d with usable := false } := by
  rw [Condition.anyFails_heeded, Condition.anyPasses_heeded, ← Condition.anyMet_eq_anyPasses hne]
  rfl

private theorem scored_scored (hne : conditions ≠ []) (husable : d.usable = true) :
    d.Scored (Condition.heeded conditions) (DiceSequence.scored conditions d) := by
  have htotal (v : Number) (t : Tag) : ({ d with value := v }.tag t).total = v := by
    rw [total, usable_tag, value_tag]
    exact if_pos husable
  rw [scored_eq hne]
  refine ⟨?_, fun hfails => ?_, fun hfails hpasses => ?_, fun hfails hpasses => ?_⟩
  · split
    · exact shown_tag ..
    · split
      · exact shown_tag ..
      · rfl
  · rw [if_pos hfails]
    exact ⟨htotal _ _, mem_tags_tag _ _⟩
  · rw [if_neg (by simp [hfails]), if_pos hpasses]
    exact ⟨htotal _ _, mem_tags_tag _ _⟩
  · rw [if_neg (by simp [hfails]), if_neg (by simp [hpasses])]
    exact ⟨rfl, rfl⟩

private theorem Scored.integer?_total {after : Die} (h : d.Scored conditions after) :
    after.total.integer? = some (d.tally conditions) := by
  rw [tally]
  split
  · rename_i hfails
    rw [(h.failure hfails).1]
    rfl
  · rename_i hfails
    rw [Bool.not_eq_true] at hfails
    split
    · rename_i hpasses
      rw [(h.success hfails hpasses).1]
      rfl
    · rename_i hpasses
      rw [(h.other hfails (Bool.not_eq_true _ ▸ hpasses)).1]
      rfl

/-- Conditions that name the same failures and passes of a die score it alike. -/
theorem Scored.congr {conditions' : List Condition} {after : Die} (h : d.Scored conditions after)
    (hfails : Condition.anyFails conditions' d.value = Condition.anyFails conditions d.value)
    (hpasses : Condition.anyPasses conditions' d.value = Condition.anyPasses conditions d.value) :
    d.Scored conditions' after := by
  obtain ⟨hshown, hfailure, hsuccess, hother⟩ := h
  rw [← hfails] at hfailure hsuccess hother
  rw [← hpasses] at hsuccess hother
  exact ⟨hshown, hfailure, hsuccess, hother⟩

end Die

namespace DiceSequence
variable {s : DiceSequence} {conditions : List Condition}

private theorem sum_tally (s : DiceSequence) (conditions : List Condition) :
    (s.toList.map (·.tally conditions)).sum = (s.successes conditions : Int) - s.failures conditions := by
  rw [successes, failures]
  induction s.toList with
  | nil => rfl
  | cons d dice ih =>
    rw [List.map_cons, List.sum_cons, ih, List.countP_cons, List.countP_cons, Die.tally]
    cases Condition.anyFails conditions d.value with
    | true =>
      simp
      omega
    | false =>
      cases Condition.anyPasses conditions d.value with
      | true =>
        simp
        omega
      | false => simp

private theorem sum_natAbs_tally_le (dice : List Die) (conditions : List Condition) :
    ((dice.map (·.tally conditions)).map Int.natAbs).sum ≤ dice.length := by
  induction dice with
  | nil => exact Nat.le_refl _
  | cons d dice ih =>
    have hone : (d.tally conditions).natAbs ≤ 1 := by
      rw [Die.tally]
      split
      · decide
      · split <;> decide
    simp only [List.map_cons, List.sum_cons, List.length_cons]
    omega

private theorem map_integer?_total {dice after : List Die} (h : List.Forall₂ (Die.Scored conditions) dice after) :
    (after.map (·.total)).map Number.integer? = (dice.map (·.tally conditions)).map some := by
  induction h with
  | nil => rfl
  | cons hd _ ih => simp only [List.map_cons, hd.integer?_total, ih]

/-- When all dice are scored, the sum is their count, which cannot leave the 64-bit range. -/
theorem counts_of_scored {t : DiceSequence} (hlength : s.toList.length < 2 ^ 63)
    (hdice : List.Forall₂ (Die.Scored conditions) s.toList t.toList) : t.Counts s conditions := by
  refine ⟨hdice, ?_⟩
  rw [sum, ← sum_tally]
  refine Number.integer?_sum (map_integer?_total hdice) fun front hfront => ?_
  exact fits_sum_of_prefix (Nat.lt_of_le_of_lt (sum_natAbs_tally_le _ _) hlength) hfront

/-- Scoring a pool of usable dice counts by the heeded conditions. Where no die fails by one of the others, it counts by
all of them. A pool never has so many dice that their count would not fit. -/
theorem score_counts (hs : s.Built) (husable : ∀ d ∈ s.toList, d.usable = true) (hne : conditions ≠ [])
    (hsize : s.size < 2 ^ 63) :
    (s.score conditions).Counts s (Condition.heeded conditions) ∧
      ((∀ d ∈ s.toList, Condition.anyFails conditions d.value = true →
          Condition.anyFails (Condition.heeded conditions) d.value = true) →
        (s.score conditions).Counts s conditions) := by
  have hlength : s.toList.length < 2 ^ 63 := by
    obtain ⟨dice, h⟩ := hs.exists_inOrder
    rwa [h.toList, List.length_map, h.length_eq]
  have hscored : List.Forall₂ (Die.Scored (Condition.heeded conditions)) s.toList (s.score conditions).toList := by
    rw [toList_score hs, List.forall₂_map_right_iff, List.forall₂_same]
    exact fun d hd => Die.scored_scored hne (husable d hd)
  refine ⟨counts_of_scored hlength hscored, fun hall => counts_of_scored hlength ?_⟩
  rw [toList_score hs, List.forall₂_map_right_iff, List.forall₂_same]
  intro d hd
  refine (Die.scored_scored hne (husable d hd)).congr ?_ (Condition.anyPasses_heeded conditions d.value).symm
  exact Bool.eq_iff_iff.2 ⟨hall d hd, Condition.anyFails_of_heeded⟩

/-- Two eights and a one: two successes less one failure. -/
theorem score_counts_eights :
    let s := ofValues [.whole 8, .whole 1, .whole 5, .whole 10]
    let conditions : List Condition := [⟨.greaterEqual, .whole 8⟩, ⟨.negate, .whole 1⟩]
    (s.score conditions).Counts s conditions ∧ (s.successes conditions = 2 ∧ s.failures conditions = 1) ∧
      (s.score conditions).text = "[8*, 1-, 5, 10*]" := by
  intro s conditions
  have husable : s.toList.all (·.usable) = true := by decide +kernel
  have hfails : s.toList.all (fun d => !Condition.anyFails conditions d.value ||
      Condition.anyFails (Condition.heeded conditions) d.value) = true := by decide +kernel
  have hsize : s.size < 2 ^ 63 := by decide +kernel
  have hne : conditions ≠ [] := List.cons_ne_nil _ _
  obtain ⟨-, hcounts⟩ := score_counts (Built.ofValues _) (List.all_eq_true.1 husable) hne hsize
  refine ⟨hcounts fun d hd hany => ?_, by decide +kernel, by decide +kernel⟩
  have himplies := List.all_eq_true.1 hfails d hd
  rwa [hany, Bool.not_true, Bool.false_or] at himplies

/-- A one and a two, both of which are to count as failures: the second `-=` condition is not heeded, and the two counts
for nothing. -/
theorem score_not_counts :
    let s := ofValues [.whole 1, .whole 2]
    let conditions : List Condition := [⟨.negate, .whole 1⟩, ⟨.negate, .whole 2⟩]
    (s.failures conditions = 2 ∧ s.successes conditions = 0) ∧ (s.score conditions).sum.integer? = some (-1) ∧
      ¬ (s.score conditions).Counts s conditions := by
  intro s conditions
  have hcounts : s.failures conditions = 2 ∧ s.successes conditions = 0 := by decide +kernel
  have hsum : (s.score conditions).sum.integer? = some (-1) := by decide +kernel
  refine ⟨hcounts, hsum, fun h => ?_⟩
  have htwo := h.sum
  rw [hsum, hcounts.1, hcounts.2] at htwo
  exact absurd htwo (by decide)

end DiceSequence
end Tabletop
