import Mathlib.Data.Set.List
import Tabletop.Proofs.Dice.Explosion
import Tabletop.Proofs.Number.Exact

/-! Explosions that add up. The streaks are those of plain explosions, so the two modifiers draw the same; what stands in a
row behind a die there is added to it here. -/
namespace Tabletop
variable {σ : Type} [RandomSource σ]

/-- Adds a roll to a die. -/
def Die.addRoll (d : Die) (v : Number) : Die := (d.setValue (d.value.add v)).tag .exploded

/-- A die with its streak added to it. -/
def Die.combined (d : Die) (rolls : List Number) : Die := rolls.foldl addRoll d

namespace Die

private theorem value_combined (d : Die) (rolls : List Number) :
    (d.combined rolls).value = rolls.foldl Number.add d.value := by
  rw [combined]
  induction rolls generalizing d with
  | nil => rfl
  | cons v rolls ih =>
    rw [List.foldl_cons, ih, List.foldl_cons, addRoll, value_tag]
    rfl

private theorem usable_combined (d : Die) (rolls : List Number) : (d.combined rolls).usable = d.usable := by
  rw [combined]
  induction rolls generalizing d with
  | nil => rfl
  | cons v rolls ih =>
    rw [List.foldl_cons, ih, addRoll, usable_tag]
    rfl

theorem total_of_usable {d : Die} (h : d.usable = true) : d.total = d.value := by rw [total, h, if_pos rfl]

private theorem usable_of_mem_exploded {d e : Die} {rolls : List Number} (hd : d.usable = true)
    (he : e ∈ d.exploded rolls) : e.usable = true := by
  induction rolls generalizing d with
  | nil =>
    obtain rfl := List.mem_singleton.1 he
    exact hd
  | cons v rolls ih =>
    rcases List.mem_cons.1 he with rfl | hrest
    · rw [usable_tag, hd]
    · exact ih rfl hrest

private theorem map_value_exploded (d : Die) (rolls : List Number) :
    (d.exploded rolls).map (·.value) = d.value :: rolls := by
  induction rolls generalizing d with
  | nil => rfl
  | cons v rolls ih =>
    rw [exploded, List.map_cons, ih, value_tag]
    rfl

end Die

namespace DiceSequence
variable {s : DiceSequence}

/-- Adds a streak to a die, roll by roll. -/
def addRolls (s : DiceSequence) (id : Nat) (rolls : List Number) : DiceSequence :=
  rolls.foldl (fun s v => s.modify id (·.addRoll v)) s

private theorem grows_addRolls : Grows addRolls fun d rolls => [d.combined rolls] where
  put_nil _ _ := rfl
  inOrder := by
    intro s front back id d h rolls
    induction rolls generalizing s d with
    | nil => exact ⟨[(id, d)], by rwa [List.append_assoc], rfl⟩
    | cons v rolls ih => exact ih (h.modify_mid (·.addRoll v))

private theorem combineDie_eq (faces : Faces) (conditions : List Condition) (id times : Nat) (latest : Number)
    (s : DiceSequence) :
    (combineDie faces conditions id times latest s : RollM σ _) =
      s.addRolls id <$> rollStreak faces conditions times latest := by
  induction times generalizing latest s with
  | zero =>
    rw [combineDie, rollStreak, map_pure]
    rfl
  | succ times ih =>
    rw [combineDie, rollStreak]
    split
    · rw [map_bind]
      refine bind_congr fun value => ?_
      rw [ih, map_bind, map_eq_pure_bind]
      refine bind_congr fun rolls => ?_
      rw [map_pure]
      rfl
    · rw [map_pure]
      rfl

/-- What an adding modifier rolls are the streaks of the dice, too. -/
theorem exists_explodeCombine_eq (hs : s.Built) (faces : Faces) (times : Nat) (conditions : List Condition) :
    ∃ build : List (Die × List Number) → DiceSequence,
      (s.explodeCombine faces times conditions : RollM σ _) = build <$> rollStreaks faces conditions times s.toList ∧
      ∀ grown, grown.map Prod.fst = s.toList → (build grown).toList = grown.map fun g => g.1.combined g.2 := by
  have hview (grown : List (Die × List Number)) :
      (grown.map fun g => g.1.combined g.2) = grown.flatMap fun g => [g.1.combined g.2] :=
    (List.flatMap_pure_eq_map ..).symm
  simp only [hview, explodeCombine]
  refine grows_addRolls.exists_build (fun h hd => ?_) hs
  rw [h.die? hd]
  exact combineDie_eq ..

end DiceSequence
/-- A rolled value and the streak that it started. -/
abbrev Grown := Int64 × List Int64

namespace Grown

def ints (g : Grown) : List Int := (g.1 :: g.2).map Int64.toInt

/-- The die and the streak as a roll leaves them. -/
def rolled (g : Grown) : Die × List Number := (.rolled (.whole g.1), g.2.map .whole)

private theorem integer?_numbers (g : Grown) :
    (Number.whole g.1 :: g.2.map Number.whole).map Number.integer? = g.ints.map some := by
  rw [ints, List.map_map, ← List.map_cons, List.map_map]
  rfl

private theorem integer?_combined {g : Grown} (hsmall : (g.ints.map Int.natAbs).sum < 2 ^ 63) :
    (g.rolled.1.combined g.rolled.2).value.integer? = some g.ints.sum := by
  rw [Die.value_combined]
  have hrolls : (g.2.map Number.whole).map Number.integer? = (g.2.map Int64.toInt).map some :=
    (List.cons.inj g.integer?_numbers).2
  refine Number.integer?_foldl_add hrolls rfl fun front hfront => ?_
  have hprefix : g.1.toInt :: front <+: g.ints := List.cons_prefix_cons.2 ⟨rfl, hfront⟩
  have hfits := fits_sum_of_prefix hsmall hprefix
  rwa [List.sum_cons] at hfits

/-- A pool counts each value and each roll once. -/
theorem perm_ints (pool : List Grown) :
    (pool.flatMap ints).Perm ((pool.map Prod.fst ++ pool.flatMap Prod.snd).map Int64.toInt) := by
  have hints : pool.flatMap ints = (pool.flatMap fun g => [g.1] ++ g.2).map Int64.toInt := by rw [List.map_flatMap]; rfl
  rw [hints, ← List.flatMap_pure_eq_map Prod.fst pool]
  exact (List.flatMap_append_perm pool (fun g => [g.1]) Prod.snd).symm.map _

/-- Streaks of rolled values consist of integers. -/
theorem exists_rolled {values : List Int64} {grown : List (Die × List Number)}
    (hfirst : grown.map Prod.fst = values.map fun v => .rolled (.whole v))
    (hwhole : ∀ v ∈ grown.flatMap Prod.snd, ∃ x, Number.whole x = v) :
    ∃ pool : List Grown, pool.map Prod.fst = values ∧ pool.map rolled = grown := by
  induction values generalizing grown with
  | nil =>
    obtain rfl : grown = [] := List.map_eq_nil_iff.1 hfirst
    exact ⟨[], rfl, rfl⟩
  | cons v values ih =>
    obtain ⟨⟨_, rolls⟩, rest, rfl, rfl, hrest⟩ := List.map_eq_cons_iff.1 hfirst
    rw [List.flatMap_cons, List.forall_mem_append] at hwhole
    obtain ⟨xs, rfl⟩ := (Set.ext_iff.1 (Set.range_list_map Number.whole) rolls).2 hwhole.1
    obtain ⟨pool, rfl, rfl⟩ := ih hrest hwhole.2
    exact ⟨(v, xs) :: pool, rfl, rfl⟩

end Grown

namespace DiceSequence
variable {t u : DiceSequence} {pool : List Grown}

private theorem integer?_sum_exploded (ht : t.toList = pool.flatMap fun g => g.rolled.1.exploded g.rolled.2)
    (hsmall : ((pool.flatMap Grown.ints).map Int.natAbs).sum < 2 ^ 63) :
    t.sum.integer? = some (pool.flatMap Grown.ints).sum := by
  refine Number.integer?_sum ?_ fun front hfront => fits_sum_of_prefix hsmall hfront
  rw [ht, List.map_flatMap, List.map_flatMap, List.map_flatMap]
  refine List.flatMap_congr fun g _ => ?_
  have htotals : (g.rolled.1.exploded g.rolled.2).map (·.total) = (g.rolled.1.exploded g.rolled.2).map (·.value) :=
    List.map_congr_left fun d hd => Die.total_of_usable (Die.usable_of_mem_exploded rfl hd)
  rw [htotals, Die.map_value_exploded]
  exact g.integer?_numbers

private theorem integer?_values_combined (hu : u.toList = pool.map fun g => g.rolled.1.combined g.rolled.2)
    (hsmall : ((pool.flatMap Grown.ints).map Int.natAbs).sum < 2 ^ 63) :
    u.values.map Number.integer? = pool.map fun g => some g.ints.sum := by
  rw [values, hu, List.map_map, List.map_map]
  refine List.map_congr_left fun g hg => Grown.integer?_combined ?_
  rw [List.flatMap_def] at hsmall
  exact natAbs_sum_lt_of_mem hsmall (List.mem_map_of_mem hg)

private theorem integer?_sum_combined (hu : u.toList = pool.map fun g => g.rolled.1.combined g.rolled.2)
    (hsmall : ((pool.flatMap Grown.ints).map Int.natAbs).sum < 2 ^ 63) :
    u.sum.integer? = some (pool.flatMap Grown.ints).sum := by
  have htotals : u.toList.map (·.total) = u.values := by
    refine List.map_congr_left fun d hd => Die.total_of_usable ?_
    rw [hu] at hd
    obtain ⟨g, -, rfl⟩ := List.mem_map.1 hd
    exact Die.usable_combined ..
  have hvalues : u.values.map Number.integer? = (pool.map fun g => g.ints.sum).map some := by
    rw [integer?_values_combined hu hsmall, List.map_map]
    rfl
  rw [List.flatMap_def] at hsmall ⊢
  rw [sum, htotals, List.sum_flatten, List.map_map]
  exact Number.integer?_sum hvalues fun front hfront => fits_sum_of_parts hsmall (by rwa [List.map_map])

end DiceSequence

/-- Rolling the streaks of a freshly rolled pool gives each value its own. -/
theorem Grown.exists_of_run {values : List Int64} {faces : Faces} {conditions : List Condition} {times : Nat}
    {cup cup' : Cup σ} {grown : List (Die × List Number)}
    (hrun : (rollStreaks faces conditions times (values.map fun v => .rolled (.whole v))).run.run cup = (.ok grown, cup')) :
    ∃ pool : List Grown, pool.map Prod.fst = values ∧ pool.map rolled = grown ∧
      cup.Drew faces ((pool.flatMap Prod.snd).map .whole) cup' := by
  obtain ⟨drawn, hdrew, rfl, hfirst, -⟩ := rollStreaks_draws _ cup grown cup' hrun
  have hwhole : ∀ v ∈ grown.flatMap Prod.snd, ∃ x, Number.whole x = v := by
    obtain ⟨xs, hxs⟩ := hdrew.exists_whole
    rw [← hxs]
    intro v hv
    obtain ⟨x, -, hx⟩ := List.mem_map.1 hv
    exact ⟨x, hx⟩
  obtain ⟨pool, hpool, rfl⟩ := exists_rolled hfirst hwhole
  rw [List.flatMap_map] at hdrew
  exact ⟨pool, hpool, rfl, by rwa [List.map_flatMap]⟩

/-- Explosions of a freshly rolled pool, in a row and added up. From equal cups both leave equal cups, whatever the source
does, and both fail alike. Where they succeed, the pools agree die by die: what stands in a row in one is added up in
the other, so the totals are the same. For that the rolled values may be so large only that their absolute values
add up to a 64-bit integer. -/
theorem Modifier.explodeCombine_agrees (values : List Int64) (times : Nat) (conditions : List Condition) (faces : Faces)
    (cup : Cup σ) :
    let s := DiceSequence.ofValues (values.map .whole)
    let exploded := (apply faces ⟨.explode, times, conditions⟩ s).run.run cup
    let combined := (apply faces ⟨.explodeCombine, times, conditions⟩ s).run.run cup
    combined.2 = exploded.2 ∧
    (∀ why, combined.1 = .error why ↔ exploded.1 = .error why) ∧
    ∀ t, exploded.1 = .ok t → ∃ u, combined.1 = .ok u ∧
      ∃ pool : List Grown,
        pool.map Prod.fst = values ∧
        cup.Drew faces ((pool.flatMap Prod.snd).map .whole) exploded.2 ∧
        t.toList = (pool.flatMap fun g => (Die.rolled (.whole g.1)).exploded (g.2.map .whole)) ∧
        (((values ++ pool.flatMap Prod.snd).map fun v => v.toInt.natAbs).sum < 2 ^ 63 →
          u.values.map Number.integer? = pool.map (fun g => some g.ints.sum) ∧
          t.sum.integer? = some (pool.flatMap Grown.ints).sum ∧ u.sum = t.sum) := by
  intro s exploded combined
  have hs : s.Built := .ofValues _
  let m : Modifier := ⟨.explode, times, conditions⟩
  let rolled := (rollStreaks faces (m.conditionsOr faces.high) times s.toList).run.run cup
  obtain ⟨build, hbuild, hview⟩ := DiceSequence.exists_explode_eq (σ := σ) hs faces times (m.conditionsOr faces.high)
  obtain ⟨build', hbuild', hview'⟩ :=
    DiceSequence.exists_explodeCombine_eq (σ := σ) hs faces times (m.conditionsOr faces.high)
  have hexploded : exploded = (rolled.1.map build, rolled.2) := by
    change (s.explode faces times (m.conditionsOr faces.high)).run.run cup = _
    rw [hbuild, RollM.run_map]
  have hcombined : combined = (rolled.1.map build', rolled.2) := by
    change (s.explodeCombine faces times (m.conditionsOr faces.high)).run.run cup = _
    rw [hbuild', RollM.run_map]
  rw [hexploded, hcombined]
  refine ⟨rfl, fun why => ?_, fun t ht => ?_⟩
  · cases rolled.1 with
    | ok grown => exact ⟨nofun, nofun⟩
    | error why' => exact Iff.rfl
  · cases hresult : rolled.1 with
    | error why =>
      rw [hresult] at ht
      nomatch ht
    | ok grown =>
      rw [hresult] at ht
      obtain rfl : build grown = t := Except.ok.inj ht
      have hlist : s.toList = values.map fun v => .rolled (.whole v) := by
        rw [DiceSequence.toList_ofValues, List.map_map]
        rfl
      have hrun : (rollStreaks faces (m.conditionsOr faces.high) times s.toList).run.run cup = (.ok grown, rolled.2) :=
        Prod.ext hresult rfl
      rw [hlist] at hrun
      obtain ⟨pool, hpool, rfl, hdrew⟩ := Grown.exists_of_run hrun
      have hfirst : (pool.map Grown.rolled).map Prod.fst = s.toList := by
        rw [hlist, ← hpool, List.map_map, List.map_map]
        rfl
      have ht := hview _ hfirst
      have hu := hview' _ hfirst
      rw [List.flatMap_map] at ht
      rw [List.map_map] at hu
      refine ⟨build' (pool.map Grown.rolled), rfl, pool, hpool, hdrew, ht, fun hsmall => ?_⟩
      have hsmall : ((pool.flatMap Grown.ints).map Int.natAbs).sum < 2 ^ 63 := by
        rw [((Grown.perm_ints pool).map _).sum_eq, hpool, List.map_map]
        exact hsmall
      have htotal := DiceSequence.integer?_sum_exploded ht hsmall
      have htotal' := DiceSequence.integer?_sum_combined hu hsmall
      exact ⟨DiceSequence.integer?_values_combined hu hsmall, htotal, Number.eq_of_integer?_eq_some htotal' htotal⟩

/-- A six that leads to another six and a two. -/
theorem Modifier.explodeCombine_agrees_six :
    let s := DiceSequence.ofValues ([6, 3].map .whole)
    let cup := Cup.fill none (Script.mk [6, 2])
    let exploded := (apply (.sided 6) ⟨.explode, 100, []⟩ s).run.run cup
    let combined := (apply (.sided 6) ⟨.explodeCombine, 100, []⟩ s).run.run cup
    ∃ t u, exploded.1 = .ok t ∧ combined.1 = .ok u ∧ t.text = "[6!, 6!, 2, 3]" ∧ u.text = "[14!, 3]" ∧ u.sum = t.sum := by
  intro s cup exploded combined
  obtain ⟨-, -, (hagree : ∀ t, exploded.1 = .ok t → ∃ u, combined.1 = .ok u ∧ _)⟩ :=
    explodeCombine_agrees [6, 3] 100 [] (.sided 6) cup
  have htext : exploded.1.toOption.map (·.text) = some "[6!, 6!, 2, 3]" := by decide +kernel
  have htext' : combined.1.toOption.map (·.text) = some "[14!, 3]" := by decide +kernel
  have hused : exploded.2.used = 2 := by decide +kernel
  cases ht : exploded.1 with
  | error why =>
    rw [ht] at htext
    nomatch htext
  | ok t =>
    obtain ⟨u, hu, pool, hpool, hdrew, -, htotal⟩ := hagree t ht
    have hdrawn := hdrew.values_eq
    rw [hused] at hdrawn
    have hdrawn : pool.flatMap Prod.snd = [6, 2] := List.map_injective_iff.2 (fun _ _ => Number.whole.inj) hdrawn
    rw [ht] at htext
    rw [hu] at htext'
    refine ⟨t, u, rfl, hu, Option.some.inj htext, Option.some.inj htext', (htotal ?_).2.2⟩
    rw [hdrawn]
    decide

end Tabletop
