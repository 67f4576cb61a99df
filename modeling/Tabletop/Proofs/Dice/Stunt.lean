import Mathlib.Data.Finset.Card
import Mathlib.Data.List.Induction
import Tabletop.Proofs.Dice.Reworking
import Tabletop.Proofs.Number.Arithmetic

/-! Stunt points. A stunt pool counts the different totals among its dice, and two of them leave points. A die that was
dropped counts there, too, with a total of zero, and a pool grown by explosions may hold more than three; so the count
tells whether two counted dice agree only for some pools. -/
namespace Tabletop
variable {σ : Type} [RandomSource σ]

namespace Number

/-- What whole numbers are compared by. -/
def rank (n : Number) : Int := nearestWhole n.toWhole.toInt

private theorem beq_iff_rank {v w : Number} (hv : ∃ x : Int64, v = .whole x) (hw : ∃ y : Int64, w = .whole y) :
    (v == w) = true ↔ v.rank = w.rank := by
  obtain ⟨x, rfl⟩ := hv
  obtain ⟨y, rfl⟩ := hw
  rw [whole_beq_iff, decide_eq_true_eq]
  rfl

private theorem rank_zero : zero.rank = 0 := by decide

end Number

namespace StuntPool
variable {ns : List Number} {dice : List Die}

/-- Two dice of those that count show equal values. -/
def Repeats (dice : List Die) : Prop :=
  ∃ (i j : Nat) (d e : Die), i < j ∧ dice[i]? = some d ∧ dice[j]? = some e ∧
    d.usable = true ∧ e.usable = true ∧ (d.value == e.value) = true

/-- The values that count. -/
def counted (dice : List Die) : List Number := (dice.filter (·.usable)).map (·.value)

private theorem distinct_concat (ns : List Number) (n : Number) :
    distinct (ns ++ [n]) = if (distinct ns).any (· == n) then distinct ns else distinct ns ++ [n] :=
  List.foldl_append

private theorem distinct_sublist (ns : List Number) : (distinct ns).Sublist ns := by
  induction ns using List.reverseRecOn with
  | nil => exact .refl _
  | append_singleton ns n ih =>
    rw [distinct_concat]
    split
    · exact ih.trans (List.sublist_append_left ns [n])
    · exact ih.append_right [n]

/-- A number is left out where an earlier one equals it. -/
theorem distinct_eq_self_iff : distinct ns = ns ↔ ns.Pairwise fun m n => (m == n) = false := by
  induction ns using List.reverseRecOn with
  | nil => exact ⟨fun _ => .nil, fun _ => rfl⟩
  | append_singleton ns n ih =>
    rw [distinct_concat, List.pairwise_append, ← ih]
    split
    · rename_i hany
      refine ⟨fun h => ?_, fun ⟨hns, _, hnew⟩ => ?_⟩
      · have hlength := (distinct_sublist ns).length_le
        rw [h, List.length_append] at hlength
        exact absurd hlength (by simp)
      · obtain ⟨m, hm, hmn⟩ := List.any_eq_true.1 hany
        rw [hns] at hm
        rw [hnew m hm n (List.mem_singleton_self n)] at hmn
        nomatch hmn
    · rename_i hnone
      have hnone : ∀ m ∈ distinct ns, (m == n) = false := fun m hm =>
        Bool.eq_false_iff.2 fun hmn => hnone (List.any_eq_true.2 ⟨m, hm, hmn⟩)
      refine ⟨fun h => ?_, fun ⟨hns, _⟩ => by rw [hns]⟩
      have hns : distinct ns = ns := List.append_cancel_right h
      refine ⟨hns, List.pairwise_singleton _ _, fun m hm k hk => ?_⟩
      rw [List.mem_singleton.1 hk]
      exact hnone m (hns.symm ▸ hm)

private theorem length_distinct_lt_iff :
    (distinct ns).length < ns.length ↔ ¬ns.Pairwise fun m n => (m == n) = false := by
  have hle := (distinct_sublist ns).length_le
  rw [← distinct_eq_self_iff, ← (distinct_sublist ns).length_eq]
  omega

/-- Of whole numbers one is left for each rank. -/
theorem map_rank_distinct (h : ∀ n ∈ ns, ∃ x : Int64, n = .whole x) :
    ((distinct ns).map (·.rank)).Nodup ∧ ∀ k, k ∈ (distinct ns).map (·.rank) ↔ k ∈ ns.map (·.rank) := by
  induction ns using List.reverseRecOn with
  | nil => exact ⟨.nil, fun k => Iff.rfl⟩
  | append_singleton ns n ih =>
    obtain ⟨hns, hn⟩ := List.forall_mem_append.1 h
    have hn := hn n (List.mem_singleton_self n)
    obtain ⟨hnodup, hmem⟩ := ih hns
    have hany : (distinct ns).any (· == n) = true ↔ n.rank ∈ (distinct ns).map (·.rank) := by
      rw [List.any_eq_true, List.mem_map]
      refine exists_congr fun m => and_congr_right fun hm => ?_
      exact Number.beq_iff_rank (hns m ((distinct_sublist ns).subset hm)) hn
    rw [distinct_concat]
    split
    · rename_i hseen
      have hseen := hany.1 hseen
      refine ⟨hnodup, fun k => ?_⟩
      rw [hmem, List.map_append, List.mem_append, List.map_singleton, List.mem_singleton]
      exact ⟨.inl, fun hk => hk.elim id fun hk => hk ▸ (hmem _).1 hseen⟩
    · rename_i hnew
      have hnew := hany.not.1 hnew
      rw [List.map_append, List.map_singleton]
      refine ⟨List.nodup_append.2 ⟨hnodup, List.nodup_singleton _, ?_⟩, fun k => ?_⟩
      · rintro k hk _ hn rfl
        exact hnew (List.mem_singleton.1 hn ▸ hk)
      · rw [List.mem_append, hmem, List.map_append, List.mem_append, List.map_singleton]

private theorem length_distinct (h : ∀ n ∈ ns, ∃ x : Int64, n = .whole x) :
    (distinct ns).length = (ns.map (·.rank)).toFinset.card := by
  obtain ⟨hnodup, hmem⟩ := map_rank_distinct h
  rw [← List.length_map (·.rank), ← List.toFinset_card_of_nodup hnodup]
  refine congrArg Finset.card (Finset.ext fun k => ?_)
  rw [List.mem_toFinset, List.mem_toFinset, hmem]

/-- Two dice agree when one of their values is left out. -/
theorem repeats_iff : Repeats dice ↔ (distinct (counted dice)).length < (counted dice).length := by
  rw [length_distinct_lt_iff, counted, List.pairwise_map, List.pairwise_filter, List.pairwise_iff_getElem]
  constructor
  · rintro ⟨i, j, d, e, hij, hd, he, hdu, heu, hde⟩ h
    obtain ⟨hi, rfl⟩ := List.getElem?_eq_some_iff.1 hd
    obtain ⟨hj, rfl⟩ := List.getElem?_eq_some_iff.1 he
    rw [h i j hi hj hij hdu heu] at hde
    nomatch hde
  · intro h
    by_contra hnone
    refine h fun i j hi hj hij hdu heu => Bool.eq_false_iff.2 fun hde => hnone ?_
    exact ⟨i, j, _, _, hij, List.getElem?_eq_getElem hi, List.getElem?_eq_getElem hj, hdu, heu, hde⟩

instance : Decidable (Repeats dice) := decidable_of_iff _ repeats_iff.symm

private theorem doubles_eq_true_iff (p : StuntPool) :
    p.doubles = true ↔ (distinct (p.dice.results.toList.map (·.total))).length < 3 :=
  decide_eq_true_iff

private theorem counted_eq_map_total (h : ∀ d ∈ dice, d.usable = true) : counted dice = dice.map (·.total) := by
  rw [counted, List.filter_eq_self.2 h]
  exact List.map_congr_left fun d hd => (Die.total_of_usable (h d hd)).symm

private theorem mem_totals_of_mem_counted {v : Number} (hv : v ∈ counted dice) : v ∈ dice.map (·.total) := by
  obtain ⟨d, hd, rfl⟩ := List.mem_map.1 hv
  obtain ⟨hmem, husable⟩ := List.mem_filter.1 hd
  exact List.mem_map.2 ⟨d, hmem, Die.total_of_usable husable⟩

/-- A die adds its value or nothing. -/
theorem eq_zero_or_mem_counted {v : Number} (hv : v ∈ dice.map (·.total)) : v = .zero ∨ v ∈ counted dice := by
  obtain ⟨d, hd, rfl⟩ := List.mem_map.1 hv
  rw [Die.total]
  split
  · rename_i husable
    exact .inr (List.mem_map_of_mem (List.mem_filter.2 ⟨hd, husable⟩))
  · exact .inl rfl

private theorem zero_mem_totals (h : (counted dice).length < dice.length) : .zero ∈ dice.map (·.total) := by
  rw [counted, List.length_map, List.length_filter_lt_length_iff_exists] at h
  obtain ⟨d, hd, hdropped⟩ := h
  exact List.mem_map.2 ⟨d, hd, if_neg hdropped⟩

/-- Equal values that count are equal totals. -/
theorem Repeats.length_distinct_lt (h : Repeats dice) : (distinct (dice.map (·.total))).length < dice.length := by
  have hlength : (dice.map (·.total)).length = dice.length := List.length_map _
  rw [← hlength, length_distinct_lt_iff, List.pairwise_map, List.pairwise_iff_getElem]
  obtain ⟨i, j, d, e, hij, hd, he, hdu, heu, hde⟩ := h
  obtain ⟨hi, rfl⟩ := List.getElem?_eq_some_iff.1 hd
  obtain ⟨hj, rfl⟩ := List.getElem?_eq_some_iff.1 he
  intro hall
  have hne := hall i j hi hj hij
  rw [Die.total_of_usable hdu, Die.total_of_usable heu, hde] at hne
  nomatch hne

section Whole
variable (hwhole : ∀ v ∈ counted dice, ∃ x : Int64, v = .whole x)
include hwhole

private theorem whole_of_mem_totals {v : Number} (hv : v ∈ dice.map (·.total)) : ∃ x : Int64, v = .whole x :=
  (eq_zero_or_mem_counted hv).elim (fun hzero => ⟨0, hzero⟩) (hwhole v)

private theorem length_distinct_counted_le :
    (distinct (counted dice)).length ≤ (distinct (dice.map (·.total))).length := by
  rw [length_distinct hwhole, length_distinct fun v => whole_of_mem_totals hwhole]
  refine Finset.card_le_card fun k hk => ?_
  obtain ⟨v, hv, rfl⟩ := List.mem_map.1 (List.mem_toFinset.1 hk)
  exact List.mem_toFinset.2 (List.mem_map_of_mem (mem_totals_of_mem_counted hv))

/-- Dropped dice count for one more number, and that is zero. -/
theorem length_distinct_totals_le :
    (distinct (dice.map (·.total))).length ≤ (distinct (counted dice)).length + 1 := by
  rw [length_distinct hwhole, length_distinct fun v => whole_of_mem_totals hwhole]
  refine (Finset.card_le_card fun k hk => ?_).trans (Finset.card_insert_le 0 _)
  obtain ⟨v, hv, rfl⟩ := List.mem_map.1 (List.mem_toFinset.1 hk)
  rw [Finset.mem_insert, List.mem_toFinset]
  rcases eq_zero_or_mem_counted hv with rfl | hv
  · exact .inl Number.rank_zero
  · exact .inr (List.mem_map_of_mem hv)

private theorem length_distinct_totals_of_dropped (hdropped : (counted dice).length < dice.length)
    (hnonzero : ∀ v ∈ counted dice, v ≠ .zero) :
    (distinct (dice.map (·.total))).length = (distinct (counted dice)).length + 1 := by
  refine Nat.le_antisymm (length_distinct_totals_le hwhole) ?_
  have hnew : (0 : Int) ∉ ((counted dice).map (·.rank)).toFinset := fun hzero => by
    obtain ⟨v, hv, hrank⟩ := List.mem_map.1 (List.mem_toFinset.1 hzero)
    obtain ⟨x, rfl⟩ := hwhole v hv
    have hx : x.toInt = 0 := (nearestWhole_eq_iff (a := 0) (by decide)).1 hrank
    exact hnonzero _ hv (congrArg Number.whole (Int64.toInt_inj.1 hx))
  rw [length_distinct hwhole, length_distinct fun v => whole_of_mem_totals hwhole, ← Finset.card_insert_of_notMem hnew]
  refine Finset.card_le_card fun k hk => ?_
  rw [List.mem_toFinset, List.mem_map]
  rcases Finset.mem_insert.1 hk with rfl | hk
  · exact ⟨.zero, zero_mem_totals hdropped, Number.rank_zero⟩
  · obtain ⟨v, hv, rfl⟩ := List.mem_map.1 (List.mem_toFinset.1 hk)
    exact ⟨v, mem_totals_of_mem_counted hv, rfl⟩

/-- With one counted die at most there is nothing that could agree, and dropped dice add no more than a zero. -/
theorem length_distinct_totals_of_few (h : (counted dice).length < 2) :
    (distinct (dice.map (·.total))).length < 3 ∧ ¬Repeats dice := by
  have htotals := length_distinct_totals_le hwhole
  have hsublist := (distinct_sublist (counted dice)).length_le
  refine ⟨by omega, fun hrepeats => ?_⟩
  have hlt := repeats_iff.1 hrepeats
  obtain ⟨v, hv⟩ : ∃ v, counted dice = [v] := List.length_eq_one_iff.1 (by omega)
  rw [hv] at hlt
  exact absurd hlt (Nat.lt_irrefl 1)

end Whole

variable {p q : StuntPool}

private theorem isSome_stuntPoints? (h : q.dice.results.toList ≠ []) : q.stuntPoints?.isSome = q.doubles := by
  rw [stuntPoints?]
  cases q.doubles with
  | false => rfl
  | true =>
    obtain ⟨d, rest, hdice⟩ := List.exists_cons_of_ne_nil h
    rw [if_pos rfl, DiceSequence.values, hdice]
    rfl

private theorem foldl_attach_stunt (ms : List Modifier) (p : StuntPool) :
    ms.foldl (fun g m => g.attach m) (DiceGroup.stunt p) = .stunt ⟨ms.foldl DicePool.attach p.dice⟩ := by
  induction ms generalizing p with
  | nil => rfl
  | cons m ms ih => exact ih ⟨p.dice.attach m⟩

/-- Attached modifiers change nothing else of a pool. -/
theorem exists_foldl_attach (ms : List Modifier) (p : DicePool) :
    ∃ modifiers, ms.foldl DicePool.attach p = { p with modifiers } := by
  induction ms generalizing p with
  | nil => exact ⟨p.modifiers, rfl⟩
  | cons m ms ih => exact ih (p.attach m)

/-- Stunt points after a roll, whatever modifiers were attached and whatever the source answers. They are reported when the
dice come to fewer than three different totals. For three dice that all count, and for two that are left and not
zero, this says that two of them agree. -/
theorem doubles_iff_repeats (hcount : p.dice.count = 3) (hplain : p.dice.conditions = []) (ms : List Modifier)
    {cup cup' : Cup σ} {g : DiceGroup}
    (hroll : (ms.foldl (fun g m => g.attach m) (DiceGroup.stunt p)).roll.run.run cup = (.ok g, cup')) :
    ∃ q : StuntPool, g = .stunt q ∧
      let dice := q.dice.results.toList
      q.dice.modifiers = (ms.foldl DicePool.attach p.dice).modifiers ∧
      q.stuntPoints?.isSome = q.doubles ∧
      3 ≤ dice.length ∧
      (¬q.dice.Has .explode → dice.length = 3) ∧
      (¬q.dice.Has .keepHigh → ¬q.dice.Has .keepLow → ∀ d ∈ dice, d.usable = true) ∧
      (¬q.dice.Has .explodeCombine → ∀ d ∈ dice, ∃ x : Int64, d.value = .whole x) ∧
      (dice.length = 3 → (∀ d ∈ dice, d.usable = true) → (q.doubles = true ↔ Repeats dice)) ∧
      (dice.length = 3 → Repeats dice → q.doubles = true) ∧
      ((∀ v ∈ counted dice, ∃ x : Int64, v = .whole x) →
        ((counted dice).length < 2 → q.doubles = true ∧ ¬Repeats dice) ∧
        ((counted dice).length = 2 → (∀ v ∈ counted dice, v ≠ .zero) → (q.doubles = true ↔ Repeats dice)) ∧
        (3 ≤ (counted dice).length → q.doubles = true → Repeats dice)) := by
  obtain ⟨modifiers, hpool⟩ := exists_foldl_attach ms p.dice
  rw [foldl_attach_stunt, hpool] at hroll
  have hends : ((DiceGroup.stunt ⟨{ p.dice with modifiers }⟩).roll : RollM σ DiceGroup).Ends
      (fun g => ∃ q : StuntPool, g = .stunt q ∧ q.dice.modifiers = modifiers ∧
        q.dice.results.Reworked q.dice.Has 3) AtLimit :=
    (DicePool.roll_reworked (p := { p.dice with modifiers }) hplain).bind fun d hd =>
      .pure ⟨⟨d⟩, rfl, congrArg DicePool.modifiers hd.1, hcount ▸ hd.2⟩
  obtain ⟨q, rfl, hmodifiers, hq⟩ := hends.of_ok hroll
  refine ⟨q, rfl, ?_⟩
  intro dice
  have hsize : dice.length = q.dice.results.size := hq.built.length_toList
  have hleast : 3 ≤ dice.length := hsize ▸ hq.least
  have hne : dice ≠ [] := List.ne_nil_of_length_pos (by omega)
  have hthree (h : dice.length = 3) (hrepeats : Repeats dice) : q.doubles = true :=
    (doubles_eq_true_iff q).2 (h ▸ hrepeats.length_distinct_lt)
  refine ⟨?_, ?_, hleast, fun hnone => hsize.trans (hq.most hnone),
    fun hhigh hlow d hd => ?_, fun hnone d hd => ?_,
    fun h hall => ⟨fun hdoubles => ?_, hthree h⟩, hthree,
    fun hwhole => ⟨fun h => ?_, fun h hnonzero => ?_, fun h hdoubles => ?_⟩⟩
  · rw [hpool, hmodifiers]
  · exact isSome_stuntPoints? hne
  · exact (hq.arises_of_mem hd).usable hhigh hlow
  · exact (hq.arises_of_mem hd).exists_whole hnone
  · rw [repeats_iff, counted_eq_map_total hall, List.length_map, h]
    exact (doubles_eq_true_iff q).1 hdoubles
  · rw [doubles_eq_true_iff]
    exact length_distinct_totals_of_few hwhole h
  · rw [doubles_eq_true_iff, repeats_iff, length_distinct_totals_of_dropped hwhole (by omega) hnonzero, h]
    omega
  · have hle := length_distinct_counted_le hwhole
    have hlt : (distinct (dice.map (·.total))).length < 3 := (doubles_eq_true_iff q).1 hdoubles
    rw [repeats_iff]
    omega

/-- What the dice of a pool come to without a limit, its group comes to. -/
theorem exists_roll (p : StuntPool) (script : Script) (good : StuntPool → Prop) [DecidablePred good]
    (h : (p.dice.roll.run.run (Cup.fill none script)).1.toOption.any (fun d => good ⟨d⟩) = true) :
    ∃ q cup', (DiceGroup.stunt p).roll.run.run (Cup.fill none script) = (.ok (.stunt q), cup') ∧ good q := by
  obtain ⟨d, cup', hd⟩ := p.dice.roll_rolls.exists_ok (Cup.fill none script) rfl
  rw [hd] at h
  refine ⟨⟨d⟩, cup', ?_, of_decide_eq_true h⟩
  rw [DiceGroup.roll, runState_bind, hd]
  rfl

/-- A one that is rolled again comes to the five that makes a pair, and the two is dropped. -/
theorem doubles_iff_repeats_fives :
    let ms : List Modifier := [⟨.reroll, 1, []⟩, ⟨.keepHigh, 2, []⟩]
    let group := ms.foldl (fun g m => g.attach m) (DiceGroup.stunt {})
    ∃ q cup', group.roll.run.run (Cup.fill none (Script.mk [5, 1, 2, 5])) = (.ok (.stunt q), cup') ∧
      q.dice.results.text = "[5, 5r, 2d]" ∧ q.doubles = true ∧ Repeats q.dice.results.toList := by
  intro ms group
  let pool : StuntPool := ⟨{ count := 3, faces := .sided 6, modifiers := ms }⟩
  obtain ⟨q, cup', hrun, htext, hvalues, hdoubles⟩ := pool.exists_roll (Script.mk [5, 1, 2, 5])
    (fun q => q.dice.results.text = "[5, 5r, 2d]" ∧
      (counted q.dice.results.toList).map Number.integer? = [some 5, some 5] ∧ q.doubles = true) (by decide +kernel)
  have hfive : ∀ v ∈ counted q.dice.results.toList, v = .whole 5 := fun v hv => by
    have hmem := List.mem_map_of_mem (f := Number.integer?) hv
    rw [hvalues] at hmem
    exact Number.eq_of_integer?_eq_some (r := 5) (by simpa using hmem) rfl
  obtain ⟨_, ⟨⟩, -, -, -, -, -, -, -, -, hwhole⟩ := doubles_iff_repeats (p := {}) rfl rfl ms hrun
  obtain ⟨-, htwo, -⟩ := hwhole fun v hv => ⟨5, hfive v hv⟩
  refine ⟨q, cup', hrun, htext, hdoubles, (htwo ?_ fun v hv => ?_).1 hdoubles⟩
  · exact (List.length_map _).symm.trans (congrArg List.length hvalues)
  · rw [hfive v hv]
    nofun

/-- Of a one, a two and a three only the three is kept, and no other die agrees with it. Yet there are stunt points: the
dropped dice come to zero both. And of two sixes that explode into a two and a three there are none, because the
pool has five dice then. -/
theorem doubles_not_repeats :
    let roll (m : Modifier) (values : List Int64) :=
      ((DiceGroup.stunt {}).attach m).roll.run.run (Cup.fill none (Script.mk values))
    (∃ q cup', roll ⟨.keepHigh, 1, []⟩ [1, 2, 3] = (.ok (.stunt q), cup') ∧ q.dice.results.text = "[1d, 2d, 3]" ∧
      q.doubles = true ∧ q.stuntPoints?.isSome = true ∧ ¬Repeats q.dice.results.toList) ∧
    ∃ q cup', roll ⟨.explode, 100, []⟩ [6, 6, 1, 2, 3] = (.ok (.stunt q), cup') ∧
      q.dice.results.text = "[6!, 2, 6!, 3, 1]" ∧ q.doubles = false ∧ q.stuntPoints?.isSome = false ∧
      Repeats q.dice.results.toList := by
  intro roll
  let pool (m : Modifier) : StuntPool := ⟨{ count := 3, faces := .sided 6, modifiers := [m] }⟩
  constructor
  · exact (pool ⟨.keepHigh, 1, []⟩).exists_roll (Script.mk [1, 2, 3]) _ (by decide +kernel)
  · exact (pool ⟨.explode, 100, []⟩).exists_roll (Script.mk [6, 6, 1, 2, 3]) _ (by decide +kernel)

end StuntPool
end Tabletop
