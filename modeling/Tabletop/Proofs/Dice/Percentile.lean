import Mathlib.Data.Nat.Digits.Defs
import Tabletop.Proofs.Dice.Sources
import Tabletop.Proofs.Number.Exact
import Tabletop.Proofs.Text.Digits

/-! Percentile dice. Each digit has a die of its own, the dice are rolled row by row, and what a row shows is read as a
decimal number. A computation is described by the dice that it asks for, in order, and what was answered. -/
namespace Tabletop
variable {σ α β : Type} [RandomSource σ]

/-- From one state of a cup to a later one these dice were rolled with these answers, one after the other, and nothing
else. -/
structure Cup.Answered (asked : List Faces) (values : List Int64) (before after : Cup σ) : Prop where
  limit : after.limit = before.limit
  used : after.used = before.used + asked.length
  answers : answers asked before.source = (values.map .whole, after.source)

private theorem Cup.Answered.append {a b c : Cup σ} {asked asked' : List Faces} {values values' : List Int64}
    (hab : Answered asked values a b) (hbc : Answered asked' values' b c) :
    Answered (asked ++ asked') (values ++ values') a c where
  limit := hbc.limit.trans hab.limit
  used := by rw [hbc.used, hab.used, List.length_append, Nat.add_assoc]
  answers := by
    rw [answers_append, hab.answers, List.map_append]
    dsimp only
    rw [hbc.answers]

private theorem Cup.Answered.length_eq {a b : Cup σ} {asked : List Faces} {values : List Int64}
    (h : Answered asked values a b) : values.length = asked.length := by
  rw [← length_answers asked a.source, h.answers, List.length_map]

namespace RollM

/-- Whatever the computation gives, it has rolled these dice for it, with answers of a certain kind, and nothing else. -/
def Asks (m : RollM σ α) (asked : List Faces) (post : α → List Int64 → Prop) : Prop :=
  ∀ cup a cup', m.run.run cup = (.ok a, cup') → ∃ values, cup.Answered asked values cup' ∧ post a values

namespace Asks
variable {m : RollM σ α} {f : α → RollM σ β} {asked asked' : List Faces} {post : α → List Int64 → Prop}
  {next : β → List Int64 → Prop}

private theorem pure {a : α} (h : post a []) : Asks (pure a : RollM σ α) [] post := by
  rintro cup _ _ ⟨⟩
  exact ⟨[], ⟨rfl, rfl, rfl⟩, h⟩

private theorem between (hsource : RandomSource.InRange σ) (faces : Faces) :
    Asks (Cup.between faces.low faces.high : RollM σ Int64) [faces] fun v values =>
      values = [v] ∧ faces.low.toInt ≤ v.toInt ∧ v.toInt ≤ faces.high.toInt := by
  intro cup v cup' h
  rw [Cup.run_between, Cup.charge] at h
  split at h
  · cases h
  · cases h
    exact ⟨_, ⟨rfl, rfl, rfl⟩, rfl, hsource _ _ cup.source faces.low_le_high⟩

private theorem bind (hm : m.Asks asked post)
    (hf : ∀ a values, post a values → (f a).Asks asked' fun b values' => next b (values ++ values')) :
    (m >>= f).Asks (asked ++ asked') next := by
  intro cup b cup' h
  rw [runState_bind] at h
  revert h
  cases hfirst : m.run.run cup with
  | mk result between =>
    cases result with
    | error why => nofun
    | ok a =>
      intro h
      obtain ⟨values, hfirst, hpost⟩ := hm cup a between hfirst
      obtain ⟨values', hrest, hnext⟩ := hf a values hpost between b cup' h
      exact ⟨values ++ values', hfirst.append hrest, hnext⟩

private theorem map {g : α → β} (hm : m.Asks asked post) (hg : ∀ a values, post a values → next (g a) values) :
    (g <$> m).Asks asked next := by
  rw [map_eq_pure_bind, ← List.append_nil asked]
  exact hm.bind fun a values ha => .pure (by rw [List.append_nil]; exact hg a values ha)

private theorem mono {weak : α → List Int64 → Prop} (hm : m.Asks asked post)
    (h : ∀ a values, post a values → weak a values) :
    m.Asks asked weak := fun cup a cup' hrun => (hm cup a cup' hrun).imp fun values hv => ⟨hv.1, h a values hv.2⟩

/-- Results that name their answers name those for a whole list, and what relates each to its element relates the lists. -/
theorem mapM {f : α → RollM σ β} {asked : α → List Faces} {drawn : β → List Int64} {R : α → β → Prop} {as : List α}
    (hf : ∀ a ∈ as, (f a).Asks (asked a) fun b values => values = drawn b ∧ R a b) :
    (as.mapM f).Asks (as.flatMap asked) fun bs values => values = bs.flatMap drawn ∧ List.Forall₂ R as bs := by
  induction as with
  | nil => exact .pure ⟨rfl, .nil⟩
  | cons a as ih =>
    obtain ⟨ha, has⟩ := List.forall_mem_cons.1 hf
    rw [List.mapM_cons, List.flatMap_cons]
    refine ha.bind fun b values hb => ?_
    rw [← map_eq_pure_bind]
    refine (ih has).map fun bs values' hbs => ?_
    obtain ⟨rfl, hab⟩ := hb
    obtain ⟨rfl, hall⟩ := hbs
    exact ⟨List.flatMap_cons.symm, .cons hab hall⟩

end Asks
end RollM

namespace PercentileDice

/-- The number that a row of decimal digits spells, the first one most significant. -/
def spelled (row : List Int64) : Nat := Nat.ofDigits 10 (row.map fun v => v.toInt.toNat).reverse

/-- The number that a row counts for. -/
def counted (row : List Int64) : Int := if Fits (spelled row) then spelled row else 0

/-- What a die for a digit can show. The die for a zero counts from zero to one. -/
def InDigit (d v : Int64) : Prop :=
  if d.toInt = 0 then 0 ≤ v.toInt ∧ v.toInt ≤ 1 else 1 ≤ v.toInt ∧ v.toInt ≤ d.toInt

variable {d v : Int64} {row : List Int64}

private theorem inDigit_of_sided (hd : 0 ≤ d.toInt)
    (h : (Faces.sided d).low.toInt ≤ v.toInt ∧ v.toInt ≤ (Faces.sided d).high.toInt) : InDigit d v := by
  have hone : (1 : Int64).toInt = 1 := rfl
  rw [Faces.sided, Faces.between] at h
  rw [InDigit]
  split at h
  · rename_i hlt
    have hzero : d.toInt = 0 := by omega
    rw [if_pos hzero]
    rwa [hzero] at h
  · rw [if_neg (by omega)]
    exact h

private theorem InDigit.decimal (hd : 0 ≤ d.toInt ∧ d.toInt ≤ 9) (h : InDigit d v) : 0 ≤ v.toInt ∧ v.toInt ≤ 9 := by
  rw [InDigit] at h
  split at h <;> omega

private theorem forall_decimal {digits : List Int64} (hdigits : ∀ d ∈ digits, 0 ≤ d.toInt ∧ d.toInt ≤ 9)
    (hrow : List.Forall₂ InDigit digits row) : ∀ v ∈ row, 0 ≤ v.toInt ∧ v.toInt ≤ 9 := by
  induction hrow with
  | nil => nofun
  | cons hv _ ih =>
    obtain ⟨hd, hdigits⟩ := List.forall_mem_cons.1 hdigits
    exact List.forall_mem_cons.2 ⟨hv.decimal hd, ih hdigits⟩

/-- Digits written one behind the other are read as they are spelled. -/
theorem foldl_wholeText (hrow : ∀ v ∈ row, 0 ≤ v.toInt ∧ v.toInt ≤ 9) (n : Nat) :
    (row.flatMap fun v => (wholeText v).toList).foldl (fun n c => 10 * n + Text.digitValue c) n =
      row.foldl (fun n v => 10 * n + v.toInt.toNat) n := by
  induction row generalizing n with
  | nil => rfl
  | cons v row ih =>
    obtain ⟨⟨hlow, hhigh⟩, hrow⟩ := List.forall_mem_cons.1 hrow
    obtain ⟨c, hc, -, hvalue⟩ := Text.exists_digit_toString hlow hhigh
    rw [List.flatMap_cons, wholeText, hc, List.singleton_append, List.foldl_cons, List.foldl_cons, hvalue]
    exact ih hrow _

private theorem foldl_eq_spelled (row : List Int64) :
    row.foldl (fun n v => 10 * n + v.toInt.toNat) 0 = spelled row := by
  rw [spelled, Nat.ofDigits_eq_foldr, List.foldr_reverse, List.foldl_map]
  simp only [Nat.cast_id, Nat.add_comm]

/-- A row is read as the number that it spells. No digits, too, count for zero. -/
theorem integer?_rowValue (hrow : ∀ v ∈ row, 0 ≤ v.toInt ∧ v.toInt ≤ 9) :
    (rowValue row).integer? = some (counted row) := by
  cases row with
  | nil => rfl
  | cons v rest =>
    let cs := (v :: rest).flatMap fun v => (wholeText v).toList
    have hdigits : ∀ c ∈ cs, Text.isDigit c = true := by
      intro c hc
      obtain ⟨w, hw, hc⟩ := List.mem_flatMap.1 hc
      obtain ⟨_, hone, hdigit, -⟩ := Text.exists_digit_toString (hrow w hw).1 (hrow w hw).2
      rw [wholeText, hone, List.mem_singleton] at hc
      exact hc ▸ hdigit
    have hne : cs ≠ [] := by
      obtain ⟨_, hone, -⟩ := Text.exists_digit_toString (hrow v List.mem_cons_self).1 (hrow v List.mem_cons_self).2
      change (wholeText v).toList ++ _ ≠ []
      rw [wholeText, hone]
      exact List.cons_ne_nil _ _
    have hvalue : Text.natOfDigits cs = spelled (v :: rest) := (foldl_wholeText hrow 0).trans (foldl_eq_spelled _)
    have hread : Text.readWhole? cs = fit? (spelled (v :: rest)) := by
      rw [Text.readWhole?_of_isDigit hdigits, Text.readNat?, if_pos ⟨hne, List.all_eq_true.2 hdigits⟩, Option.bind_some,
        hvalue]
    change some ((Text.readWhole? cs).getD 0).toInt = _
    rw [hread, counted]
    split
    · rename_i hfits
      obtain ⟨x, hx, hspelled⟩ := exists_fit?_of_fits hfits
      rw [hx, Option.getD_some, hspelled]
    · rename_i hfits
      rw [fit?_of_not_fits hfits]
      rfl

private theorem counted_nonneg (row : List Int64) : 0 ≤ counted row := by
  rw [counted]
  split <;> omega

private theorem rollRow_asks (hsource : RandomSource.InRange σ) {digits : List Int64}
    (hdigits : ∀ d ∈ digits, 0 ≤ d.toInt ∧ d.toInt ≤ 9) :
    (digits.mapM fun d => Cup.between (Faces.sided d).low (Faces.sided d).high : RollM σ _).Asks
      (digits.map Faces.sided) fun row values => values = row ∧ List.Forall₂ InDigit digits row := by
  have hrow : (digits.mapM fun d => Cup.between (Faces.sided d).low (Faces.sided d).high : RollM σ _).Asks
      (digits.flatMap fun d => [Faces.sided d])
      fun row values => values = (row.flatMap fun v => [v]) ∧ List.Forall₂ InDigit digits row :=
    .mapM fun d hd =>
      (RollM.Asks.between hsource (Faces.sided d)).mono fun v values h => ⟨h.1, inDigit_of_sided (hdigits d hd).1 h.2⟩
  rw [← List.flatMap_pure_eq_map]
  refine hrow.mono fun row values h => ⟨?_, h.2⟩
  rw [h.1, List.flatMap_singleton']

private theorem forall_mem_of_forall₂_replicate {R : α → β → Prop} {a : α} {n : Nat} {bs : List β}
    (h : List.Forall₂ R (List.replicate n a) bs) : ∀ b ∈ bs, R a b := by
  induction n generalizing bs with
  | zero =>
    cases h
    nofun
  | succ n ih =>
    rw [List.replicate_succ] at h
    cases h with
    | cons hb hbs => exact List.forall_mem_cons.2 ⟨hb, ih hbs⟩

/-- A roll asks for a die for each digit, in one row after the other. -/
theorem roll_asks (hsource : RandomSource.InRange σ) {p : PercentileDice}
    (hdigits : ∀ d ∈ p.digits, 0 ≤ d.toInt ∧ d.toInt ≤ 9) :
    (p.roll : RollM σ PercentileDice).Asks (List.replicate p.count (p.digits.map Faces.sided)).flatten fun q values =>
      q = { p with rows := q.rows } ∧ values = q.rows.flatten ∧
        List.Forall₂ (List.Forall₂ InDigit) (List.replicate p.count p.digits) q.rows := by
  have hrow : ∀ row ∈ List.replicate p.count p.digits,
      (row.mapM fun d => Cup.between (Faces.sided d).low (Faces.sided d).high : RollM σ _).Asks (row.map Faces.sided)
        fun row' values => values = id row' ∧ List.Forall₂ InDigit row row' := fun row hrow =>
    rollRow_asks hsource fun d hd => hdigits d (List.eq_of_mem_replicate hrow ▸ hd)
  have hrows := RollM.Asks.mapM hrow
  rw [List.flatMap_def, List.map_replicate] at hrows
  rw [roll, ← map_eq_pure_bind]
  refine hrows.map fun rows values h => ⟨rfl, ?_, h.2⟩
  rw [h.1, List.flatMap_id]

/-- The total is exact where it fits. -/
theorem integer?_total {p : PercentileDice} (hrows : ∀ row ∈ p.rows, ∀ v ∈ row, 0 ≤ v.toInt ∧ v.toInt ≤ 9)
    (hfits : Fits (p.rows.map counted).sum) : p.total.integer? = some (p.rows.map counted).sum := by
  have hpos : ∀ r ∈ p.rows.map counted, 0 ≤ r := List.forall_mem_map.2 fun row _ => counted_nonneg row
  have hsmall : ((p.rows.map counted).map Int.natAbs).sum < 2 ^ 63 := by
    have hsum := sum_natAbs_of_nonneg hpos
    have hlt := hfits.2
    omega
  rw [total]
  refine Number.integer?_sum ?_ fun front hfront => fits_sum_of_prefix hsmall hfront
  rw [List.map_map, List.map_map]
  exact List.map_congr_left fun row hrow => integer?_rowValue (hrows row hrow)

/-- Percentile dice with any decimal digits and a source that keeps to its ranges. No limit, no failure; and a roll that
succeeds asks for one die for each digit of each number, row by row, and for nothing else. Under a zero stands a zero or a
one, under any other digit something from one up to it. The total is the sum of the numbers that the rows spell, of which
those that do not fit into 64 bits count for nothing, as long as the sum fits itself. -/
theorem roll_spells (hsource : RandomSource.InRange σ) {p : PercentileDice}
    (hdigits : ∀ d ∈ p.digits, 0 ≤ d.toInt ∧ d.toInt ≤ 9) (cup : Cup σ) :
    (cup.limit = none → ∃ q cup', p.roll.run.run cup = (.ok q, cup')) ∧
    ∀ q cup', p.roll.run.run cup = (.ok q, cup') →
      q = { p with rows := q.rows } ∧
      q.rows.length = p.count ∧
      (∀ row ∈ q.rows, List.Forall₂ InDigit p.digits row) ∧
      q.rows.flatten.length = p.count * p.digits.length ∧
      cup.Answered (List.replicate p.count (p.digits.map Faces.sided)).flatten q.rows.flatten cup' ∧
      (Fits (q.rows.map counted).sum → q.total.integer? = some (q.rows.map counted).sum) := by
  refine ⟨p.roll_rolls.exists_ok cup, fun q cup' hrun => ?_⟩
  obtain ⟨_, hanswered, hsame, rfl, hrows⟩ := roll_asks hsource hdigits cup q cup' hrun
  have hlength : q.rows.length = p.count := hrows.length_eq.symm.trans List.length_replicate
  have hinDigit := forall_mem_of_forall₂_replicate hrows
  have hdecimal : ∀ row ∈ q.rows, ∀ v ∈ row, 0 ≤ v.toInt ∧ v.toInt ≤ 9 := fun row hrow =>
    forall_decimal hdigits (hinDigit row hrow)
  refine ⟨hsame, hlength, hinDigit, ?_, hanswered, fun hfits => integer?_total hdecimal hfits⟩
  simpa using hanswered.length_eq

/-- Two numbers of a six and a zero. -/
theorem roll_spells_six_zero :
    let p := PercentileDice.ofDigits 2 [6, 0]
    let cup : Cup Generator := Cup.fill none ⟨1⟩
    ∃ q cup', p.roll.run.run cup = (.ok q, cup') ∧ q.rows = [[6, 1], [1, 1]] ∧
      cup.Answered [.sided 6, .sided 0, .sided 6, .sided 0] [6, 1, 1, 1] cup' ∧ q.total.integer? = some 72 := by
  intro p cup
  have hdigits : ∀ d ∈ p.digits, 0 ≤ d.toInt ∧ d.toInt ≤ 9 :=
    List.forall_mem_cons.2 ⟨by decide, List.forall_mem_cons.2 ⟨by decide, nofun⟩⟩
  obtain ⟨hok, hspells⟩ := roll_spells Generator.inRange hdigits cup
  obtain ⟨q, cup', hrun⟩ := hok rfl
  have hrows : (p.roll.run.run cup).1.toOption.map (·.rows) = some [[6, 1], [1, 1]] := by decide +kernel
  rw [hrun] at hrows
  have hrows : q.rows = [[6, 1], [1, 1]] := Option.some.inj hrows
  have hsum : ([[6, 1], [1, 1]].map counted).sum = 72 := by decide +kernel
  obtain ⟨-, -, -, -, hanswered, htotal⟩ := hspells q cup' hrun
  rw [hrows] at hanswered htotal
  rw [hsum] at htotal
  exact ⟨q, cup', hrun, hrows, hanswered, htotal (by decide)⟩

end PercentileDice
end Tabletop
