import Tabletop.Proofs.Dice.Ends

/-! What the limit of rolls changes. Dice are counted before they are drawn, so a limit changes nothing
about a computation that keeps within it, and stops any other before a die too many is drawn. -/
namespace Tabletop
variable {σ α : Type}

/-- How many values were taken from a recorded source. -/
def Recorded.taken (source : Recorded σ) : Nat := source.draws.size

namespace Cup
variable {n k limit : Nat} {a b c cup : Cup (Recorded σ)}

/-- The same cup with a limit. -/
def holding (limit : Nat) (cup : Cup σ) : Cup σ := { cup with limit := some limit }

/-- From one state of a cup to a later one, `n` dice were counted and as many drawn. -/
structure Spent (n : Nat) (before after : Cup (Recorded σ)) : Prop where
  limit : after.limit = before.limit
  used : after.used = before.used + n
  taken : after.source.taken = before.source.taken + n

private theorem Spent.refl (cup : Cup (Recorded σ)) : Spent 0 cup cup := ⟨rfl, rfl, rfl⟩

private theorem Spent.trans (hab : Spent n a b) (hbc : Spent k b c) : Spent (n + k) a c where
  limit := hbc.limit.trans hab.limit
  used := by rw [hbc.used, hab.used, Nat.add_assoc]
  taken := by rw [hbc.taken, hab.taken, Nat.add_assoc]

private theorem charge_of_unlimited (hfree : cup.limit = none) (n : Nat) (answer : Recorded σ → α × Recorded σ) :
    cup.charge n answer = (.ok (answer cup.source).1, ⟨none, cup.used + n, (answer cup.source).2⟩) := by
  simp [charge, hfree]

private theorem charge_holding (cup : Cup (Recorded σ)) (n limit : Nat) (answer : Recorded σ → α × Recorded σ) :
    (cup.holding limit).charge n answer =
      if cup.used + n ≤ limit then
        (.ok (answer cup.source).1, ⟨some limit, cup.used + n, (answer cup.source).2⟩)
      else (.error .tooManyRolls, { cup.holding limit with used := cup.used + n }) := by
  rw [charge]
  rcases Nat.lt_or_ge limit (cup.used + n) with hlt | hle
  · rw [if_neg (Nat.not_le_of_lt hlt)]
    exact if_pos (decide_eq_true hlt)
  · rw [if_pos hle]
    exact if_neg fun hlt => Nat.not_le_of_lt (of_decide_eq_true hlt) hle

variable [RandomSource σ]

/-- A source that records has one answer more for each die. -/
theorem taken_answers (fs : List Faces) (source : Recorded σ) :
    (answers fs source).2.taken = source.taken + fs.length := by
  induction fs generalizing source with
  | nil => rfl
  | cons f fs ih =>
    have hone : (RandomSource.between f.low f.high source).2.taken = source.taken + 1 := Array.size_push ..
    change (answers fs (RandomSource.between f.low f.high source).2).2.taken = _
    rw [ih, hone, List.length_cons, Nat.add_assoc, Nat.add_comm 1]

end Cup

namespace RollM.Counted
variable [RandomSource σ] {bad : RollError → Prop} {m : RollM (Recorded σ) α} {limit : Nat}

/-- Without a limit all dice that are counted are drawn. -/
theorem spent (h : m.Counted bad) (cup : Cup (Recorded σ)) (hfree : cup.limit = none) :
    ∃ n, cup.Spent n (m.run.run cup).2 := by
  induction h generalizing cup with
  | pure | throw => exact ⟨0, .refl cup⟩
  | between low high =>
    rw [Cup.run_between, Cup.charge_of_unlimited hfree]
    exact ⟨1, hfree.symm, rfl, Array.size_push ..⟩
  | roll n faces =>
    rw [Cup.run_roll, Cup.charge_of_unlimited hfree]
    exact ⟨n, hfree.symm, rfl, by simp [Cup.taken_answers]⟩
  | @bind _ _ m f _ _ ihm ihf =>
    obtain ⟨n, hn⟩ := ihm _ hfree
    rw [runState_bind]
    revert hn
    cases m.run.run cup with
    | mk result cup' =>
      cases result with
      | error why => exact fun hn => ⟨n, hn⟩
      | ok a =>
        intro hn
        obtain ⟨k, hk⟩ := ihf a cup' (hn.limit.trans hfree)
        exact ⟨n + k, hn.trans hk⟩

/-- A computation that keeps within the limit does not notice it. -/
theorem run_holding (h : m.Counted bad) (cup : Cup (Recorded σ)) (hfree : cup.limit = none)
    (hle : (m.run.run cup).2.used ≤ limit) :
    m.run.run (cup.holding limit) = ((m.run.run cup).1, (m.run.run cup).2.holding limit) := by
  induction h generalizing cup with
  | pure | throw => rfl
  | between low high =>
    rw [Cup.run_between, Cup.charge_of_unlimited hfree] at hle
    rw [Cup.run_between, Cup.run_between, Cup.charge_of_unlimited hfree, Cup.charge_holding, if_pos hle]
    rfl
  | roll n faces =>
    rw [Cup.run_roll, Cup.charge_of_unlimited hfree] at hle
    rw [Cup.run_roll, Cup.run_roll, Cup.charge_of_unlimited hfree, Cup.charge_holding, if_pos hle]
    rfl
  | @bind _ _ m f hm hf ihm ihf =>
    obtain ⟨n, hn⟩ := hm.spent _ hfree
    rw [runState_bind] at hle ⊢
    rw [runState_bind]
    cases hfirst : m.run.run cup with
    | mk result cup' =>
      rw [hfirst] at hn hle
      cases result with
      | error why =>
        have hheld := ihm _ hfree (by rw [hfirst]; exact hle)
        rw [hfirst] at hheld
        rw [hheld]
      | ok a =>
        have hfree' : cup'.limit = none := hn.limit.trans hfree
        obtain ⟨k, hk⟩ := (hf a).spent _ hfree'
        have hused : cup'.used ≤ limit := by
          have := hk.used
          simp only at hle
          omega
        have hheld := ihm _ hfree (by rw [hfirst]; exact hused)
        rw [hfirst] at hheld
        rw [hheld]
        exact ihf a _ hfree' hle

/-- A computation that would go past the limit fails there, and has drawn at most as many dice as were left. -/
theorem run_holding_of_lt (h : m.Counted bad) (cup : Cup (Recorded σ)) (hfree : cup.limit = none)
    (hroom : cup.used ≤ limit) (hlt : limit < (m.run.run cup).2.used) :
    (m.run.run (cup.holding limit)).1 = .error .tooManyRolls ∧
      (m.run.run (cup.holding limit)).2.source.taken + cup.used ≤ cup.source.taken + limit := by
  induction h generalizing cup with
  | pure | throw => exact absurd hlt (Nat.not_lt_of_le hroom)
  | between low high =>
    rw [Cup.run_between, Cup.charge_of_unlimited hfree] at hlt
    rw [Cup.run_between, Cup.charge_holding, if_neg (Nat.not_le_of_lt hlt)]
    exact ⟨rfl, Nat.add_le_add_left hroom _⟩
  | roll n faces =>
    rw [Cup.run_roll, Cup.charge_of_unlimited hfree] at hlt
    rw [Cup.run_roll, Cup.charge_holding, if_neg (Nat.not_le_of_lt hlt)]
    exact ⟨rfl, Nat.add_le_add_left hroom _⟩
  | @bind _ _ m f hm hf ihm ihf =>
    obtain ⟨n, hn⟩ := hm.spent _ hfree
    rw [runState_bind]
    rcases Nat.lt_or_ge limit (m.run.run cup).2.used with hover | hwithin
    · -- The first part is over the limit already.
      obtain ⟨herror, htaken⟩ := ihm _ hfree hroom hover
      revert herror htaken
      cases m.run.run (cup.holding limit) with
      | mk result cup' =>
        rintro rfl htaken
        exact ⟨rfl, htaken⟩
    · rw [hm.run_holding _ hfree hwithin]
      rw [runState_bind] at hlt
      revert hn hlt hwithin
      cases m.run.run cup with
      | mk result cup' =>
        intro hlt hn hwithin
        cases result with
        | error why => exact absurd hlt (Nat.not_lt_of_le hwithin)
        | ok a =>
          obtain ⟨herror, htaken⟩ := ihf a _ (hn.limit.trans hfree) hwithin hlt
          refine ⟨herror, ?_⟩
          have hused := hn.used
          have hdrawn := hn.taken
          dsimp only at hused hdrawn htaken ⊢
          omega

/-- With a limit, too, all dice that are counted are drawn, unless the limit is passed. -/
theorem spent_of_ne_tooManyRolls (h : m.Counted bad) (cup : Cup (Recorded σ))
    (hroom : ∀ limit ∈ cup.limit, cup.used ≤ limit)
    (hne : (m.run.run cup).1 ≠ .error .tooManyRolls) : ∃ n, cup.Spent n (m.run.run cup).2 := by
  obtain ⟨_ | limit, used, source⟩ := cup
  · exact h.spent _ rfl
  · have hused : used ≤ limit := hroom limit rfl
    obtain ⟨n, hn⟩ := h.spent ⟨none, used, source⟩ rfl
    have hle : (m.run.run ⟨none, used, source⟩).2.used ≤ limit := by
      refine Nat.le_of_not_lt fun hlt => hne ?_
      exact (h.run_holding_of_lt ⟨none, used, source⟩ rfl hused hlt).1
    have hheld := h.run_holding ⟨none, used, source⟩ rfl hle
    refine ⟨n, ?_⟩
    change Cup.Spent n _ (m.run.run (Cup.holding limit ⟨none, used, source⟩)).2
    rw [hheld]
    exact ⟨rfl, hn.used, hn.taken⟩

end RollM.Counted
end Tabletop
