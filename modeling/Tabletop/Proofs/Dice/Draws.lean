import Tabletop.Proofs.Dice.Ends

/-! What a computation draws from a source, as a list of values: the list says all there is to say about the cup
afterwards. The draws of most modifiers are streaks, in which a value that meets a condition leads to the next. -/
namespace Tabletop
variable {σ α β : Type} [RandomSource σ]

namespace Cup

/-- From one state of a cup to a later one these values were drawn by equal dice, one after the other, and nothing
else. -/
structure Drew (faces : Faces) (values : List Number) (before after : Cup σ) : Prop where
  limit : after.limit = before.limit
  used : after.used = before.used + values.length
  answers : answers (List.replicate values.length faces) before.source = (values, after.source)

variable {faces : Faces} {a b c : Cup σ} {values values' : List Number}

theorem answers_append (fs gs : List Faces) (source : σ) :
    answers (fs ++ gs) source =
      ((answers fs source).1 ++ (answers gs (answers fs source).2).1, (answers gs (answers fs source).2).2) := by
  induction fs generalizing source with
  | nil => rfl
  | cons f fs ih =>
    simp only [List.cons_append, answers, ih]

theorem length_answers (fs : List Faces) (source : σ) : (answers fs source).1.length = fs.length := by
  induction fs generalizing source with
  | nil => rfl
  | cons f fs ih => exact congrArg (· + 1) (ih _)

/-- Sources answer with integers. -/
theorem exists_whole_answers (fs : List Faces) (source : σ) : ∃ xs : List Int64, xs.map .whole = (answers fs source).1 := by
  induction fs generalizing source with
  | nil => exact ⟨[], rfl⟩
  | cons f fs ih =>
    obtain ⟨xs, hxs⟩ := ih (RandomSource.between f.low f.high source).2
    exact ⟨(RandomSource.between f.low f.high source).1 :: xs, congrArg _ hxs⟩

theorem Drew.exists_whole (h : Drew faces values a b) : ∃ xs : List Int64, xs.map .whole = values := by
  obtain ⟨xs, hxs⟩ := exists_whole_answers (List.replicate values.length faces) a.source
  exact ⟨xs, hxs.trans (congrArg Prod.fst h.answers)⟩

/-- How many values were drawn says which. -/
theorem Drew.values_eq (h : Drew faces values a b) :
    values = (Cup.answers (List.replicate (b.used - a.used) faces) a.source).1 := by
  rw [h.used, Nat.add_sub_cancel_left, h.answers]

private theorem Drew.refl (cup : Cup σ) : Drew faces [] cup cup := ⟨rfl, rfl, rfl⟩

private theorem Drew.trans (hab : Drew faces values a b) (hbc : Drew faces values' b c) :
    Drew faces (values ++ values') a c where
  limit := hbc.limit.trans hab.limit
  used := by rw [hbc.used, hab.used, List.length_append, Nat.add_assoc]
  answers := by
    rw [List.length_append, ← List.replicate_append_replicate, answers_append, hab.answers]
    change (values ++ (Cup.answers _ b.source).1, (Cup.answers _ b.source).2) = _
    rw [hbc.answers]

end Cup

namespace RollM

/-- Whatever the computation gives, it has drawn values of a certain kind for it, and nothing else. -/
def Draws (faces : Faces) (m : RollM σ α) (post : α → List Number → Prop) : Prop :=
  ∀ cup a cup', m.run.run cup = (.ok a, cup') → ∃ values, cup.Drew faces values cup' ∧ post a values

namespace Draws
variable {faces : Faces} {m : RollM σ α} {f : α → RollM σ β} {post : α → List Number → Prop}
  {next : β → List Number → Prop}

theorem pure {a : α} (h : post a []) : Draws faces (pure a : RollM σ α) post := by
  rintro cup _ _ ⟨⟩
  exact ⟨[], .refl cup, h⟩

theorem rollOne (faces : Faces) : Draws faces (Cup.rollOne faces : RollM σ Number) fun v values => values = [v] := by
  intro cup v cup' h
  have hmap : (Cup.rollOne faces : RollM σ Number) = Number.whole <$> Cup.between faces.low faces.high :=
    (map_eq_pure_bind _ _).symm
  rw [hmap, run_map, Cup.run_between, Cup.charge] at h
  split at h
  · cases h
  · cases h
    exact ⟨_, ⟨rfl, rfl, rfl⟩, rfl⟩

theorem roll (n : Nat) (faces : Faces) :
    Draws faces (Cup.roll n faces : RollM σ _) fun rolled values => values = rolled ∧ rolled.length = n := by
  intro cup rolled cup' h
  rw [Cup.run_roll, Cup.charge] at h
  split at h
  · cases h
  · cases h
    have hlength := Cup.length_answers (List.replicate n faces) cup.source
    rw [List.length_replicate] at hlength
    refine ⟨_, ⟨rfl, ?_, ?_⟩, rfl, hlength⟩
    · rw [hlength]
    · rw [hlength]

theorem bind (hm : m.Draws faces post)
    (hf : ∀ a values, post a values → (f a).Draws faces fun b values' => next b (values ++ values')) :
    (m >>= f).Draws faces next := by
  intro cup b cup' h
  rw [runState_bind] at h
  revert h
  cases hfirst : m.run.run cup with
  | mk result between =>
    cases result with
    | error why => nofun
    | ok a =>
      intro h
      obtain ⟨values, hdrew, hpost⟩ := hm cup a between hfirst
      obtain ⟨values', hdrew', hnext⟩ := hf a values hpost between b cup' h
      exact ⟨values ++ values', hdrew.trans hdrew', hnext⟩

theorem map {g : α → β} (hm : m.Draws faces post) (hg : ∀ a values, post a values → next (g a) values) :
    (g <$> m).Draws faces next := by
  rw [map_eq_pure_bind]
  exact hm.bind fun a values ha => .pure (by rw [List.append_nil]; exact hg a values ha)

theorem mono {weak : α → List Number → Prop} (hm : m.Draws faces post) (h : ∀ a values, post a values → weak a values) :
    m.Draws faces weak := fun cup a cup' hrun => (hm cup a cup' hrun).imp fun values hv => ⟨hv.1, h a values hv.2⟩

/-- Results that name what they are for and what was drawn for them name all that was drawn for a list. -/
theorem mapM {f : α → RollM σ β} {origin : β → α} {drawn : β → List Number} {good : β → Prop}
    (hf : ∀ a, (f a).Draws faces fun b values => values = drawn b ∧ origin b = a ∧ good b) (as : List α) :
    (as.mapM f).Draws faces fun bs values =>
      values = bs.flatMap drawn ∧ bs.map origin = as ∧ ∀ b ∈ bs, good b := by
  induction as with
  | nil => exact .pure ⟨rfl, rfl, nofun⟩
  | cons a as ih =>
    rw [List.mapM_cons]
    refine (hf a).bind fun b values hb => ih.bind fun bs values' hbs => .pure ?_
    obtain ⟨rfl, rfl, hgood⟩ := hb
    obtain ⟨rfl, rfl, hrest⟩ := hbs
    rw [List.append_nil]
    exact ⟨rfl, rfl, List.forall_mem_cons.2 ⟨hgood, hrest⟩⟩

end Draws

/-- Without a limit nothing makes it fail. -/
theorem Rolls.exists_ok {m : RollM σ α} (h : m.Rolls) (cup : Cup σ) (hfree : cup.limit = none) :
    ∃ a cup', m.run.run cup = (.ok a, cup') := by
  have hok : ∃ a cup', m.run.run cup = (.ok a, cup') ∧ cup'.limit = none := by
    induction h generalizing cup with
    | pure a => exact ⟨a, cup, rfl, hfree⟩
    | throw h => exact h.elim
    | between low high =>
      rw [Cup.run_between, Cup.charge, hfree]
      exact ⟨_, _, rfl, rfl⟩
    | roll n faces =>
      rw [Cup.run_roll, Cup.charge, hfree]
      exact ⟨_, _, rfl, rfl⟩
    | bind _ _ ihm ihf =>
      obtain ⟨a, between, hm, hfree⟩ := ihm cup hfree
      obtain ⟨b, cup', hf, hfree⟩ := ihf a between hfree
      refine ⟨b, cup', ?_, hfree⟩
      rw [runState_bind, hm]
      exact hf
  obtain ⟨a, cup', hrun, -⟩ := hok
  exact ⟨a, cup', hrun⟩

end RollM

/-- The values rolled on from a first one for as long as the latest meets the conditions, `times` at most. -/
structure Streak (conditions : List Condition) (times : Nat) (first : Number) (rolls : List Number) : Prop where
  eq_nil_iff : rolls = [] ↔ times = 0 ∨ Condition.anyMet conditions first = false
  length_le : rolls.length ≤ times
  met : ∀ v ∈ rolls.dropLast, Condition.anyMet conditions v = true
  ended : rolls.length < times → ∀ v ∈ rolls.getLast?, Condition.anyMet conditions v = false

namespace Streak
variable {conditions : List Condition} {times : Nat} {first v : Number} {rolls : List Number}

theorem nil (h : times = 0 ∨ Condition.anyMet conditions first = false) : Streak conditions times first [] :=
  ⟨⟨fun _ => h, fun _ => rfl⟩, Nat.zero_le _, nofun, fun _ => nofun⟩

/-- A value that meets the conditions leads to another, and from that one the rest is a streak with one roll less. -/
theorem cons (h : Condition.anyMet conditions first = true) (hrest : Streak conditions times v rolls) :
    Streak conditions (times + 1) first (v :: rolls) where
  eq_nil_iff := by simp [h]
  length_le := Nat.succ_le_succ hrest.length_le
  met := by
    cases rolls with
    | nil => nofun
    | cons w rolls =>
      have hv : Condition.anyMet conditions v = true := by
        cases hmet : Condition.anyMet conditions v with
        | true => rfl
        | false => exact absurd (hrest.eq_nil_iff.2 (.inr hmet)) (List.cons_ne_nil w rolls)
      exact List.forall_mem_cons.2 ⟨hv, hrest.met⟩
  ended := by
    intro hlt
    have hlt : rolls.length < times := Nat.lt_of_succ_lt_succ hlt
    cases rolls with
    | nil =>
      have hv := (hrest.eq_nil_iff.1 rfl).resolve_left (Nat.ne_of_gt hlt)
      rintro _ ⟨⟩
      exact hv
    | cons w rolls => exact hrest.ended hlt

end Streak
end Tabletop
