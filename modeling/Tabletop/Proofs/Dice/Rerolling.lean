import Mathlib.Algebra.BigOperators.Group.List.Basic
import Mathlib.Algebra.GroupWithZero.Nat
import Mathlib.Logic.Function.Basic
import Tabletop.Proofs.Dice.Draws
import Tabletop.Proofs.Dice.Order

/-! Dice rolled again. The passes shorten the list of dice that are rolled, so each die is rolled in the first passes and in
none after those: what it is rolled is a streak, and a pass takes one value of every streak that is long enough. -/
namespace Tabletop
variable {σ : Type} [RandomSource σ]

/-- A die once it was rolled again for these values, one after the other. -/
def Die.redrawn (d : Die) (rolls : List Number) : Die :=
  match rolls.getLast? with
  | none => d
  | some last => (d.tag .rerolled).setValue last

/-- One value of every list that has so many, in order, then the next of every list, and so on. -/
def byPass (passes : Nat) (lists : List (List Number)) : List Number :=
  (List.range passes).flatMap fun k => lists.filterMap fun rolls => rolls[k]?

private theorem Die.tag_setValue_tag (d : Die) (t : Tag) (v : Number) :
    ((d.tag t).setValue v).tag t = (d.tag t).setValue v :=
  tag_of_mem (d.mem_tags_tag t)

private theorem Die.redrawn_append (d : Die) (first rest : List Number) :
    (d.redrawn first).redrawn rest = d.redrawn (first ++ rest) := by
  rcases List.eq_nil_or_concat first with rfl | ⟨_, v, rfl⟩
  · rfl
  rcases List.eq_nil_or_concat rest with rfl | ⟨_, w, rfl⟩
  · rw [List.append_nil]
    rfl
  · simp only [List.concat_eq_append, ← List.append_assoc, redrawn, List.getLast?_append, List.getLast?_singleton,
      Option.some_or]
    rw [Die.tag_setValue_tag]
    rfl

/-- The first pass takes the heads, and what is left of the lists is taken by the passes after it. -/
theorem byPass_succ (passes : Nat) (lists : List (List Number)) :
    byPass (passes + 1) lists = lists.filterMap List.head? ++ byPass passes (lists.map List.tail) := by
  rw [byPass, List.range_succ_eq_map, List.flatMap_cons, List.flatMap_map]
  congr 1
  · exact List.filterMap_congr fun rolls _ => (List.head?_eq_getElem? ..).symm
  · refine List.flatMap_congr fun k _ => ?_
    rw [List.filterMap_map]
    exact List.filterMap_congr fun rolls _ => (List.getElem?_tail ..).symm

/-- A pass in front of others, where lists that are not in it are not in the others either. -/
theorem byPass_cons {α : Type} {as : List α} {first : α → Option Number} {rest : α → List Number} (passes : Nat)
    (h : ∀ a ∈ as, first a = none → rest a = []) :
    byPass (passes + 1) (as.map fun a => (first a).toList ++ rest a) =
      as.filterMap first ++ byPass passes (as.map rest) := by
  rw [byPass_succ, List.filterMap_map, List.map_map]
  congr 1
  · refine List.filterMap_congr fun a ha => ?_
    rw [Function.comp_apply]
    cases hfirst : first a with
    | none => rw [h a ha hfirst]; rfl
    | some v => rfl
  · refine congrArg _ (List.map_congr_left fun a ha => ?_)
    rw [Function.comp_apply]
    cases hfirst : first a with
    | none => rw [h a ha hfirst]; rfl
    | some v => rfl

private theorem length_heads_tails (lists : List (List Number)) :
    (lists.filterMap List.head?).length + ((lists.map List.tail).map List.length).sum = (lists.map List.length).sum := by
  induction lists with
  | nil => rfl
  | cons rolls lists ih =>
    cases rolls with
    | nil =>
      simp only [List.filterMap_cons, List.head?_nil, List.map_cons, List.tail_nil, List.sum_cons] at ih ⊢
      omega
    | cons v rolls =>
      simp only [List.filterMap_cons, List.head?_cons, List.length_cons, List.map_cons, List.tail_cons, List.sum_cons]
        at ih ⊢
      omega

private theorem length_byPass {passes : Nat} {lists : List (List Number)} (h : ∀ rolls ∈ lists, rolls.length ≤ passes) :
    (byPass passes lists).length = (lists.map List.length).sum := by
  induction passes generalizing lists with
  | zero =>
    refine (List.sum_eq_zero fun n hn => ?_).symm
    obtain ⟨rolls, hrolls, rfl⟩ := List.mem_map.1 hn
    exact Nat.le_zero.1 (h rolls hrolls)
  | succ passes ih =>
    have htails : ∀ rolls ∈ lists.map List.tail, rolls.length ≤ passes := by
      intro _ htail
      obtain ⟨rolls, hrolls, rfl⟩ := List.mem_map.1 htail
      rw [List.length_tail]
      exact Nat.sub_le_of_le_add (h rolls hrolls)
    rw [byPass_succ, List.length_append, ih htails, length_heads_tails]

namespace DiceSequence
variable {s : DiceSequence} {dice : List (Nat × Die)} {faces : Faces} {conditions : List Condition}

/-- Every die of a list without repetitions gets a value of its own, in the order of the list. -/
theorem rerollAll_draws (h : s.InOrder dice) {ids : List Nat} (hids : ids.Nodup) :
    (rerollAll faces s ids : RollM σ _).Draws faces fun t values =>
      ∃ value : Nat → Option Number, (∀ id, (value id).isSome ↔ id ∈ ids) ∧ values = ids.filterMap value ∧
        t.InOrder (dice.map fun p => (p.1, p.2.redrawn (value p.1).toList)) := by
  induction ids generalizing s dice with
  | nil => exact .pure ⟨fun _ => none, fun _ => by simp, rfl, by simpa [Die.redrawn] using h⟩
  | cons id ids ih =>
    obtain ⟨hid, hids⟩ := List.nodup_cons.1 hids
    rw [rerollAll, List.foldlM_cons, bind_assoc]
    refine (RollM.Draws.rollOne faces).bind fun v _ hv => ?_
    obtain rfl := hv
    rw [pure_bind]
    refine (ih (h.modify id fun d => (d.tag .rerolled).setValue v) hids).mono fun t values ht => ?_
    obtain ⟨value, hsome, rfl, ht⟩ := ht
    have hnone : value id = none := by simpa using (hsome id).not.2 hid
    have hother : ∀ j ∈ ids, Function.update value id (some v) j = value j := fun j hj =>
      Function.update_of_ne (fun he : j = id => hid (he ▸ hj)) (some v) value
    refine ⟨Function.update value id (some v), fun j => ?_, ?_, ?_⟩
    · rcases eq_or_ne j id with rfl | hne
      · simp
      · rw [Function.update_of_ne hne, hsome, List.mem_cons, or_iff_right hne]
    · rw [List.filterMap_cons, Function.update_self, List.filterMap_congr hother]
      rfl
    · rw [List.map_map] at ht
      refine ht.map_congr fun p _ => ?_
      refine congrArg (Prod.mk p.1) ?_
      dsimp only
      rcases eq_or_ne p.1 id with rfl | hne
      · rw [if_pos rfl, Function.update_self, hnone]
        rfl
      · rw [if_neg hne, Function.update_of_ne hne]

private theorem rerollPasses_succ (passes : Nat) (active : List Nat) (s : DiceSequence) :
    (rerollPasses faces conditions (passes + 1) active s : RollM σ _) =
      rerollAll faces s (active.filter (s.meets conditions)) >>=
        rerollPasses faces conditions passes (active.filter (s.meets conditions)) := by
  rw [rerollPasses]
  cases active.filter (s.meets conditions) with
  | cons id ids => rfl
  | nil =>
    change _ = pure s >>= rerollPasses faces conditions passes []
    rw [pure_bind]
    cases passes <;> rfl

/-- Passes over some of the dice of a sequence. Each of them is rolled again along a streak of its own, and the others
are not. -/
theorem rerollPasses_draws (h : s.InOrder dice) (passes : Nat) (keep : Nat → Bool) :
    (rerollPasses faces conditions passes ((dice.map (·.1)).filter keep) s : RollM σ _).Draws faces fun t values =>
      ∃ rolls : Nat → List Number,
        (∀ p ∈ dice, keep p.1 = false → rolls p.1 = []) ∧
        (∀ p ∈ dice, keep p.1 = true → Streak conditions passes p.2.value (rolls p.1)) ∧
        values = byPass passes (dice.map fun p => rolls p.1) ∧
        t.InOrder (dice.map fun p => (p.1, p.2.redrawn (rolls p.1))) := by
  induction passes generalizing s dice keep with
  | zero =>
    refine .pure ⟨fun _ => [], fun _ _ _ => rfl, fun _ _ _ => .nil (.inl rfl), rfl, ?_⟩
    change s.InOrder (dice.map id)
    rwa [List.map_id]
  | succ passes ih =>
    let again (id : Nat) : Bool := keep id && s.meets conditions id
    have hagain : ((dice.map (·.1)).filter keep).filter (s.meets conditions) = (dice.map (·.1)).filter again := by
      rw [List.filter_filter]
      exact List.filter_congr fun id _ => Bool.and_comm ..
    rw [rerollPasses_succ, hagain]
    refine (rerollAll_draws h (h.nodup.filter again)).bind fun s' drawn hs' => ?_
    obtain ⟨value, hsome, rfl, hs'⟩ := hs'
    have hvalue : ∀ p ∈ dice, (value p.1).isSome = again p.1 := fun p hp => by
      rw [Bool.eq_iff_iff, hsome, List.mem_filter, and_iff_right (List.mem_map_of_mem hp)]
    have hdrawn : ((dice.map (·.1)).filter again).filterMap value = dice.filterMap fun p => value p.1 := by
      rw [List.filterMap_filter, List.filterMap_map]
      refine List.filterMap_congr fun p hp => ?_
      rw [Function.comp_apply, ← hvalue p hp]
      cases value p.1 <;> rfl
    have hpasses := ih hs' again
    simp only [List.map_map, Function.comp_def, List.forall_mem_map] at hpasses
    refine hpasses.mono fun t drawn ht => ?_
    obtain ⟨rolls, hnone, hstreak, rfl, ht⟩ := ht
    refine ⟨fun id => (value id).toList ++ rolls id, fun p hp hkeep => ?_, fun p hp hkeep => ?_, ?_, ?_⟩
    · -- A die that sits out one pass sits out all that follow.
      have hskip : again p.1 = false := by simp only [again, hkeep, Bool.false_and]
      have hempty : value p.1 = none := by simpa [hskip] using hvalue p hp
      simp only [hempty, hnone p hp hskip]
      rfl
    · have hmeets : again p.1 = Condition.anyMet conditions p.2.value := by
        simp only [again, hkeep, Bool.true_and, h.meets hp]
      cases hfirst : value p.1 with
      | none =>
        have hskip : again p.1 = false := by rw [← hvalue p hp, hfirst]; rfl
        simp only [hfirst, hnone p hp hskip]
        exact .nil (.inr (hmeets.symm.trans hskip))
      | some v =>
        have hroll : again p.1 = true := by rw [← hvalue p hp, hfirst]; rfl
        have hrest := hstreak p hp hroll
        simp only [hfirst] at hrest ⊢
        exact .cons (hmeets.symm.trans hroll) hrest
    · rw [hdrawn, ← byPass_cons passes fun p hp hempty => hnone p hp ?_]
      rw [← hvalue p hp, hempty]
      rfl
    · simpa only [Die.redrawn_append] using ht

/-- What a rerolling modifier leaves: every die where it was, once it was rolled again along its streak. -/
theorem reroll_draws (hs : s.Built) (times : Nat) :
    (s.reroll faces times conditions : RollM σ _).Draws faces fun t values =>
      ∃ redrawn : List (Die × List Number),
        redrawn.map Prod.fst = s.toList ∧
        t.ids = s.ids ∧
        t.toList = (redrawn.map fun g => g.1.redrawn g.2) ∧
        (∀ g ∈ redrawn, Streak conditions times g.1.value g.2) ∧
        values = byPass times (redrawn.map Prod.snd) := by
  obtain ⟨dice, h⟩ := hs.exists_inOrder
  have hall : (dice.map (·.1)).filter (fun _ => true) = s.ids := by rw [List.filter_true, h.ids]
  rw [reroll, ← hall]
  refine (rerollPasses_draws h times fun _ => true).mono fun t values ht => ?_
  obtain ⟨rolls, -, hstreak, rfl, ht⟩ := ht
  refine ⟨dice.map fun p => (p.2, rolls p.1), ?_, ?_, ?_, ?_, ?_⟩
  · rw [h.toList, List.map_map]
    rfl
  · rw [hall, h.ids, ht.ids, List.map_map]
    rfl
  · rw [ht.toList, List.map_map, List.map_map]
    rfl
  · rw [List.forall_mem_map]
    exact fun p hp => hstreak p hp rfl
  · rw [List.map_map]
    rfl

end DiceSequence

/-- Rerolls of any sequence of dice. `ri` stands for a count of 100, and without conditions the lowest face is rolled
again. No limit, no failure; and when the modifier succeeds, each die stands where it stood, with the last value
of its own streak: it is rolled again until a value fails the conditions, as often as the count allows. The dice that
still meet them are rolled pass by pass, each pass in the order shown, and nothing else is drawn. -/
theorem WrittenModifier.reroll_toList (r : Repeats) (count : Nat) (conditions : List Condition) (faces : Faces)
    {s : DiceSequence} (hs : s.Built) (cup : Cup σ) :
    let m := (WrittenModifier.reroll r).resolve count conditions
    let times := match r with | .unbounded => 100 | .times n => n
    let rerolling := if conditions.isEmpty then [.equalTo faces.low] else conditions
    (cup.limit = none → ∃ t cup', (m.apply faces s).run.run cup = (.ok t, cup')) ∧
    ∀ t cup', (m.apply faces s).run.run cup = (.ok t, cup') →
      ∃ redrawn : List (Die × List Number),
        redrawn.map Prod.fst = s.toList ∧
        t.ids = s.ids ∧
        t.toList = (redrawn.map fun g => g.1.redrawn g.2) ∧
        (∀ g ∈ redrawn, Streak rerolling times g.1.value g.2) ∧
        cup.Drew faces (byPass times (redrawn.map Prod.snd)) cup' ∧
        cup'.used = cup.used + (redrawn.map fun g => g.2.length).sum := by
  intro m times rerolling
  have htimes : m.count = times := by cases r <;> rfl
  refine ⟨(m.apply_rolls faces s).exists_ok cup, fun t cup' hrun => ?_⟩
  have happly : (m.apply faces s : RollM σ _) = s.reroll faces times rerolling := by
    rw [← htimes]
    rfl
  rw [happly] at hrun
  obtain ⟨_, hdrew, redrawn, hfirst, hids, hlist, hstreaks, rfl⟩ := DiceSequence.reroll_draws hs times cup t cup' hrun
  refine ⟨redrawn, hfirst, hids, hlist, hstreaks, hdrew, ?_⟩
  have hshort : ∀ rolls ∈ redrawn.map Prod.snd, rolls.length ≤ times := by
    rw [List.forall_mem_map]
    exact fun g hg => (hstreaks g hg).length_le
  rw [hdrew.used, length_byPass hshort, List.map_map]
  rfl

/-- Both ones are rolled again before the new one is. -/
theorem WrittenModifier.reroll_toList_ones :
    let s := DiceSequence.ofValues [.whole 1, .whole 4, .whole 1]
    let m := (WrittenModifier.reroll (.times 3)).resolve 3 []
    let run := (m.apply (.sided 6) s).run.run (Cup.fill none (Script.mk [1, 3, 5]))
    ∃ (t : DiceSequence) (redrawn : List (Die × List Number)), run.1 = .ok t ∧ t.text = "[5r, 4, 3r]" ∧
      redrawn.map Prod.fst = s.toList ∧ t.toList = (redrawn.map fun g => g.1.redrawn g.2) ∧
      byPass 3 (redrawn.map Prod.snd) = [.whole 1, .whole 3, .whole 5] := by
  intro s m run
  obtain ⟨hfree, hrun⟩ := WrittenModifier.reroll_toList (.times 3) 3 [] (.sided 6) (s := s) (.ofValues _)
    (Cup.fill none (Script.mk [1, 3, 5]))
  obtain ⟨t, cup', ht⟩ := hfree rfl
  obtain ⟨redrawn, hfirst, -, hlist, -, hdrew, -⟩ := hrun t cup' ht
  have hresult : run = (.ok t, cup') := ht
  have htext : run.1.toOption.map (·.text) = some "[5r, 4, 3r]" := by decide +kernel
  rw [hresult] at htext
  have hused : cup'.used = 3 := (congrArg (·.2.used) hresult).symm.trans (by decide +kernel)
  have hdrawn := hdrew.values_eq
  rw [hused] at hdrawn
  exact ⟨t, redrawn, congrArg Prod.fst hresult, Option.some.inj htext, hfirst, hlist, hdrawn⟩

end Tabletop
