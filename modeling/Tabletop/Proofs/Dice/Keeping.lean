import Tabletop.Proofs.Dice.Attaching
import Tabletop.Proofs.Dice.Averages
import Tabletop.Proofs.Dice.Draws
import Tabletop.Proofs.Dice.Order
import Tabletop.Proofs.Dice.Ranking
import Tabletop.Proofs.Number.Exact

/-! Keeping and dropping dice. A modifier that keeps dice draws nothing and changes no value, so each such modifier of a
pool ranks the dice as they were rolled, whatever the others have dropped. -/
namespace Tabletop
variable {σ : Type} [RandomSource σ]

/-- A rolled die, kept or dropped where it stands. -/
def Die.keptIf (kept : Bool) (v : Number) : Die := ⟨v, kept, v.text, if kept then [] else [.dropped]⟩

namespace DiceSequence
variable {s : DiceSequence} {dice : List (Nat × Die)}

private theorem drop_keptIf (kept : Bool) (v : Number) : drop (.keptIf kept v) = .keptIf false v := by
  cases kept <;> rfl

private theorem drop_drop (d : Die) : drop (drop d) = drop d := by
  have hunusable : { drop d with usable := false } = drop d := by
    rw [drop, Die.tag]
    split <;> rfl
  rw [drop, hunusable]
  exact Die.tag_of_mem (Die.mem_tags_tag ..)

private theorem InOrder.foldl_drop (h : s.InOrder dice) (dropped : List (Nat × Number)) :
    (dropped.foldl (fun s x => s.modify x.1 drop) s).InOrder
      (dice.map fun p => (p.1, if p.1 ∈ dropped.map Prod.fst then drop p.2 else p.2)) := by
  induction dropped generalizing s dice with
  | nil => simpa using h
  | cons x dropped ih =>
    have hrest := ih (h.modify x.1 drop)
    rw [List.map_map] at hrest
    refine hrest.map_congr fun p _ => ?_
    simp only [Function.comp_apply, List.map_cons, List.mem_cons]
    refine congrArg (Prod.mk p.1) ?_
    rcases Decidable.em (p.1 = x.1) with hx | hx
    · simp only [hx, true_or, if_true, drop_drop, ite_self]
    · simp only [hx, false_or, if_false]

/-- The numbers of the dice that are not among the first `n` in rank order. -/
def outranked (less : Number → Number → Bool) (n : Nat) (dice : List (Nat × Number)) : List Nat :=
  ((ranked (fun a b => less a.2 b.2) dice).drop n).map Prod.fst

private theorem InOrder.keep (h : s.InOrder dice) (less : Number → Number → Bool) (n : Nat) :
    (s.keep less n).InOrder (dice.map fun p =>
      (p.1, if p.1 ∈ outranked less n (dice.map fun p => (p.1, p.2.value)) then drop p.2 else p.2)) := by
  have hdice : s.ids.filterMap (fun id => (s.die? id).map fun d => (id, d.value)) = dice.map fun p => (p.1, p.2.value) := by
    rw [h.ids, List.filterMap_map, ← List.filterMap_eq_map]
    refine List.filterMap_congr fun p hp => ?_
    rw [Function.comp_apply, h.die? (d := p.2) hp]
    rfl
  rw [DiceSequence.keep, hdice]
  exact h.foldl_drop _

/-- Among rolled values in their places, compared by a key. -/
theorem mem_outranked {values : List Int64} {less : Number → Number → Bool} {key : Int64 → Int}
    (hless : ∀ v ∈ values, ∀ w ∈ values, less (.whole v) (.whole w) = true ↔ key v < key w) {x : Int64 × Nat}
    (hx : x ∈ values.zipIdx) (n : Nat) :
    x.2 ∈ outranked less n (values.zipIdx.map fun x => (x.2, .whole x.1)) ↔ x ∉ (ranking key values).take n := by
  have hranked : ranked (fun a b => less (.whole a.1) (.whole b.1)) values.zipIdx = ranking key values :=
    ranked_zipIdx fun y hy z hz => hless y.1 (List.fst_mem_of_mem_zipIdx hy) z.1 (List.fst_mem_of_mem_zipIdx hz)
  rw [outranked, ranked_map, hranked, ← List.map_drop, List.map_map]
  exact mem_drop_ranking hx n

/-- A rolled pool of which some dice are dropped. -/
def Keeps (values : List Int64) (kept : Int64 × Nat → Bool) (s : DiceSequence) : Prop :=
  s.InOrder (values.zipIdx.map fun x => (x.2, .keptIf (kept x) (.whole x.1)))

/-- Values that are doubles themselves are compared as the integers they are. -/
theorem isLess_whole {v w : Int64} (hv : v.toInt.natAbs ≤ 2 ^ 53) (hw : w.toInt.natAbs ≤ 2 ^ 53) :
    isLess (.whole v) (.whole w) = true ↔ v.toInt < w.toInt := by
  rw [isLess, Number.compare?, nearestWhole_of_natAbs_le hv, nearestWhole_of_natAbs_le hw, beq_iff_eq, Option.some_inj]
  exact compare_lt_iff_lt

namespace Keeps
variable {values : List Int64} {kept : Int64 × Nat → Bool}

private theorem ofValues (values : List Int64) : Keeps values (fun _ => true) (.ofValues (values.map .whole)) := by
  have h := InOrder.ofValues (values.map .whole)
  rwa [List.zipIdx_map, List.map_map] at h

private theorem congr {kept' : Int64 × Nat → Bool} (h : Keeps values kept s)
    (hkept : ∀ x ∈ values.zipIdx, kept x = kept' x) : Keeps values kept' s :=
  InOrder.map_congr h fun x hx => congrArg (fun k => (x.2, Die.keptIf k (.whole x.1))) (hkept x hx)

private theorem keep {less : Number → Number → Bool} {key : Int64 → Int}
    (hless : ∀ v ∈ values, ∀ w ∈ values, less (.whole v) (.whole w) = true ↔ key v < key w) (h : Keeps values kept s)
    (n : Nat) : Keeps values (fun x => kept x && decide (x ∈ (ranking key values).take n)) (s.keep less n) := by
  have hkeep := InOrder.keep h less n
  rw [List.map_map, List.map_map] at hkeep
  refine hkeep.map_congr fun x hx => congrArg (Prod.mk x.2) ?_
  change (if x.2 ∈ outranked less n (values.zipIdx.map fun x => (x.2, .whole x.1))
    then drop (.keptIf (kept x) (.whole x.1)) else .keptIf (kept x) (.whole x.1)) =
      .keptIf (kept x && decide (x ∈ (ranking key values).take n)) (.whole x.1)
  rcases Decidable.em (x ∈ (ranking key values).take n) with htake | htake
  · rw [if_neg (fun hout => (mem_outranked hless hx n).1 hout htake), decide_eq_true htake, Bool.and_true]
  · rw [if_pos ((mem_outranked hless hx n).2 htake), drop_keptIf, decide_eq_false htake, Bool.and_false]

private theorem toList (h : Keeps values kept s) :
    s.toList = values.zipIdx.map fun x => .keptIf (kept x) (.whole x.1) := by
  rw [InOrder.toList h, List.map_map]
  rfl

private theorem ids (h : Keeps values kept s) : s.ids = List.range values.length := by
  rw [InOrder.ids h, List.map_map, List.range_eq_range']
  exact List.zipIdx_map_snd ..

/-- The sum is exact while the running sums of the dice that are kept fit. -/
theorem sum (h : Keeps values kept s)
    (hfits : ∀ front, front <+: (values.zipIdx.filter kept).map (·.1.toInt) → Fits front.sum) :
    s.sum.integer? = some ((values.zipIdx.filter kept).map (·.1.toInt)).sum := by
  let share (x : Int64 × Nat) : Int := if kept x then x.1.toInt else 0
  have hshare (xs : List (Int64 × Nat)) : (xs.map share).sum = ((xs.filter kept).map (·.1.toInt)).sum := by
    rw [List.sum_map_ite]
    simp
  have htotals : (s.toList.map (·.total)).map Number.integer? = (values.zipIdx.map share).map some := by
    rw [h.toList, List.map_map, List.map_map, List.map_map]
    refine List.map_congr_left fun x _ => ?_
    simp only [Function.comp_apply, Die.total, Die.keptIf, share]
    cases kept x <;> rfl
  rw [DiceSequence.sum, ← hshare]
  refine Number.integer?_sum htotals fun front hfront => ?_
  obtain ⟨first, hfirst, rfl⟩ := List.prefix_map_iff.1 hfront
  rw [hshare]
  exact hfits _ ((hfirst.filter kept).map _)

end Keeps
end DiceSequence

namespace Modifier

/-- Whether a modifier that keeps dice keeps a value in its place. -/
def picks (values : List Int64) (m : Modifier) (x : Int64 × Nat) : Bool :=
  match m.kind with
  | .keepHigh => x ∈ (highestFirst values).take m.count
  | .keepLow => x ∈ (lowestFirst values).take m.count
  | .reroll | .explode | .explodeCombine => true

variable {values : List Int64} {m : Modifier}

private theorem picks_of_length_le (h : values.length ≤ m.count) {x : Int64 × Nat} (hx : x ∈ values.zipIdx) :
    m.picks values x = true := by
  rw [picks]
  cases m.kind with
  | keepHigh | keepLow => exact decide_eq_true (mem_take_ranking hx h)
  | reroll | explode | explodeCombine => rfl

private theorem keeps_dropOnly {s : DiceSequence} {kept : Int64 × Nat → Bool}
    (hexact : ∀ v ∈ values, v.toInt.natAbs ≤ 2 ^ 53) (h : s.Keeps values kept) (m : Modifier) :
    (m.dropOnly s).Keeps values fun x => kept x && m.picks values x := by
  simp only [dropOnly, picks]
  cases m.kind with
  | keepHigh =>
    refine DiceSequence.Keeps.keep (fun v hv w hw => ?_) h m.count
    rw [DiceSequence.isLess_whole (hexact w hw) (hexact v hv)]
    omega
  | keepLow =>
    exact DiceSequence.Keeps.keep (fun v hv w hw => DiceSequence.isLess_whole (hexact v hv) (hexact w hw)) h m.count
  | reroll | explode | explodeCombine =>
    simpa only [Bool.and_true] using h

/-- Each of several modifiers ranks all dice, dropped or not. -/
theorem keeps_foldl_dropOnly {s : DiceSequence} {kept : Int64 × Nat → Bool}
    (hexact : ∀ v ∈ values, v.toInt.natAbs ≤ 2 ^ 53) (h : s.Keeps values kept) (ms : List Modifier) :
    (ms.foldl (fun s m => m.dropOnly s) s).Keeps values fun x => kept x && ms.all (·.picks values x) := by
  induction ms generalizing s kept with
  | nil =>
    simp only [List.all_nil, Bool.and_true]
    exact h
  | cons m ms ih =>
    simp only [List.all_cons, ← Bool.and_assoc]
    exact ih (keeps_dropOnly hexact h m)

end Modifier

namespace DicePool

/-- Modifiers that keep dice draw nothing. -/
theorem rework_of_keeping {p : DicePool} (h : ∀ m ∈ p.modifiers, m.kind = .keepHigh ∨ m.kind = .keepLow) :
    (p.rework : RollM σ DiceSequence) = pure p.settle := by
  have hfold (s : DiceSequence) {ms : List Modifier} (h : ∀ m ∈ ms, m.kind = .keepHigh ∨ m.kind = .keepLow) :
      (ms.foldlM (fun s m => m.apply p.faces s) s : RollM σ DiceSequence) = pure (ms.foldl (fun s m => m.dropOnly s) s) := by
    induction ms generalizing s with
    | nil => rfl
    | cons m ms ih =>
      obtain ⟨hm, hms⟩ := List.forall_mem_cons.1 h
      have happly : (m.apply p.faces s : RollM σ DiceSequence) = pure (m.dropOnly s) := by
        rw [Modifier.apply, Modifier.dropOnly]
        rcases hm with hm | hm <;> rw [hm]
      rw [List.foldlM_cons, happly, pure_bind]
      exact ih _ hms
  rw [rework, hfold _ h, pure_bind, settle]

private theorem roll_draws_of_keeping {p : DicePool} (h : ∀ m ∈ p.modifiers, m.kind = .keepHigh ∨ m.kind = .keepLow) :
    (p.roll : RollM σ DicePool).Draws p.faces fun q values =>
      values.length = p.count ∧ q = { p with rolled := values, results := { p with rolled := values }.settle } := by
  rw [roll]
  refine (RollM.Draws.roll p.count p.faces).bind fun rolled values hrolled => ?_
  obtain ⟨rfl, hlength⟩ := hrolled
  have hrework : ({ p with rolled := values }.rework : RollM σ DiceSequence) = pure { p with rolled := values }.settle :=
    rework_of_keeping h
  change RollM.Draws p.faces ({ p with rolled := values }.rework >>= fun results =>
    pure { p with rolled := values, results }) _
  rw [hrework, pure_bind]
  exact .pure (by rw [List.append_nil]; exact ⟨hlength, rfl⟩)

end DicePool

namespace WrittenModifier
variable {dice : Nat} {written : List WrittenModifier} {values : List Int64} {x : Int64 × Nat}

/-- What is attached for one end keeps as many dice as are kept from there. -/
theorem forall_picks_iff (hdice : dice < 2 ^ 32) (h : ∀ w ∈ written, (w.keeps? dice).isSome = true)
    (hlength : values.length = dice) (hx : x ∈ values.zipIdx) (kind : ModifierKind) :
    (∀ m ∈ DicePool.attached (written.map (·.resolve dice [])), m.kind = kind → m.picks values x = true) ↔
      (Modifier.mk kind (keptFrom kind dice written) []).picks values x = true := by
  have hlast : ((written.map (·.resolve dice [])).filter (·.kind = kind)).getLast? =
      ((written.filterMap (·.keeps? dice)).filter (·.1 = kind)).getLast?.map fun k => ⟨k.1, k.2, []⟩ := by
    rw [map_resolve hdice h, List.filter_map, List.getLast?_map]
    rfl
  rw [keptFrom]
  cases hk : ((written.filterMap (·.keeps? dice)).filter (·.1 = kind)).getLast? with
  | none =>
    -- Without a modifier for this end the count is that of all dice, which are the first then.
    rw [hk] at hlast
    refine ⟨fun _ => Modifier.picks_of_length_le (Nat.le_of_eq hlength) hx, fun _ m hm hkind => ?_⟩
    rw [DicePool.mem_attached, hkind, hlast] at hm
    cases hm
  | some k =>
    rw [hk] at hlast
    obtain rfl : k.1 = kind := of_decide_eq_true (List.mem_filter.1 (List.mem_of_getLast? hk)).2
    constructor
    · intro hall
      exact hall _ ((DicePool.mem_attached _).2 hlast) rfl
    · intro hpicks m hm hkind
      rw [DicePool.mem_attached, hkind, hlast] at hm
      cases hm
      exact hpicks

private theorem all_picks_attached (hdice : dice < 2 ^ 32) (h : ∀ w ∈ written, (w.keeps? dice).isSome = true)
    (hlength : values.length = dice) (hx : x ∈ values.zipIdx) :
    (DicePool.attached (written.map (·.resolve dice []))).all (·.picks values x) =
      (decide (x ∈ (highestFirst values).take (keptFrom .keepHigh dice written)) &&
        decide (x ∈ (lowestFirst values).take (keptFrom .keepLow dice written))) := by
  have hends := forall_picks_iff hdice h hlength hx
  rw [Bool.eq_iff_iff, List.all_eq_true, Bool.and_eq_true]
  refine Iff.trans ⟨fun hall => ?_, fun hall m hm => ?_⟩ (and_congr (hends .keepHigh) (hends .keepLow))
  · exact ⟨fun m hm _ => hall m hm, fun m hm _ => hall m hm⟩
  · exact (kind_of_mem_attached hdice h hm).elim (hall.1 m hm) (hall.2 m hm)

end WrittenModifier

/-- Keeping and dropping in a plain pool, by modifiers attached in any order. No limit, no failure; and when the roll
succeeds, a die counts if it is among the first of all rolled values from the top as well as from the bottom, as many
from there as the last modifier for that end says. The others are dropped where they stand. Values have to be integers
that doubles can hold, and the running sums have to fit. -/
theorem DicePool.roll_keeping {p : DicePool} (hbare : p.modifiers = []) (hplain : p.conditions = [])
    (hcount : p.count < 2 ^ 32) {written : List WrittenModifier}
    (hwritten : ∀ w ∈ written, (w.keeps? p.count).isSome = true) (cup : Cup σ) :
    let pool := written.foldl (fun q w => q.attach (w.resolve q.count [])) p
    let a := WrittenModifier.keptFrom .keepHigh p.count written
    let b := WrittenModifier.keptFrom .keepLow p.count written
    (cup.limit = none → ∃ q cup', pool.roll.run.run cup = (.ok q, cup')) ∧
    ∀ q cup', pool.roll.run.run cup = (.ok q, cup') →
      ∃ values : List Int64,
        values.length = p.count ∧
        q.rolled = values.map .whole ∧
        cup.Drew p.faces q.rolled cup' ∧
        ((∀ v ∈ values, v.toInt.natAbs ≤ 2 ^ 53) →
          let usable (x : Int64 × Nat) : Bool := x ∈ (highestFirst values).take a && x ∈ (lowestFirst values).take b
          let counted := (values.zipIdx.filter usable).map (·.1.toInt)
          q.results.ids = List.range p.count ∧
          q.results.toList = (values.zipIdx.map fun x =>
            ⟨.whole x.1, usable x, (Number.whole x.1).text, if usable x then [] else [.dropped]⟩) ∧
          (p.count ≤ b → counted.sum = (((values.map Int64.toInt).insertionSort (· ≥ ·)).take a).sum) ∧
          (p.count ≤ a → counted.sum = (((values.map Int64.toInt).insertionSort (· ≤ ·)).take b).sum) ∧
          ((∀ front, front <+: counted → Fits front.sum) → q.total.integer? = some counted.sum)) := by
  intro pool a b
  have hpool : pool = { p with modifiers := attached (written.map (·.resolve p.count [])) } :=
    (foldl_attach_resolved (fun n w => w.resolve n []) p written).trans (foldl_attach p hbare _)
  refine ⟨pool.roll_rolls.exists_ok cup, fun q cup' hrun => ?_⟩
  rw [hpool] at hrun
  have hkinds : ∀ m ∈ attached (written.map (·.resolve p.count [])), m.kind = .keepHigh ∨ m.kind = .keepLow :=
    fun m => WrittenModifier.kind_of_mem_attached hcount hwritten
  obtain ⟨rolled, hdrew, hlength, rfl⟩ := roll_draws_of_keeping hkinds cup q cup' hrun
  obtain ⟨values, rfl⟩ := hdrew.exists_whole
  rw [List.length_map] at hlength
  refine ⟨values, hlength, rfl, hdrew, fun hexact => ?_⟩
  intro usable counted
  have hkeeps : DiceSequence.Keeps values usable (settle { p with
      modifiers := attached (written.map (·.resolve p.count [])), rolled := values.map .whole }) := by
    rw [settle, hplain]
    refine (Modifier.keeps_foldl_dropOnly hexact (.ofValues values) _).congr fun x hx => ?_
    rw [Bool.true_and]
    exact WrittenModifier.all_picks_attached hcount hwritten hlength hx
  have hhigh : ∀ v w : Int64, -v.toInt ≤ -w.toInt → v.toInt ≥ w.toInt := fun _ _ => Int.neg_le_neg_iff.1
  have hlow : ∀ v w : Int64, v.toInt ≤ w.toInt → v.toInt ≤ w.toInt := fun _ _ => id
  refine ⟨hlength ▸ hkeeps.ids, hkeeps.toList, fun hb => ?_, fun ha => ?_, fun hfits => hkeeps.sum hfits⟩
  · refine sum_filter_ranking hhigh fun x hx => ?_
    have hall : x ∈ (lowestFirst values).take b := mem_take_ranking hx (hlength ▸ hb)
    simp only [usable, hall, decide_true, Bool.and_true]
    rfl
  · refine sum_filter_ranking hlow fun x hx => ?_
    have hall : x ∈ (highestFirst values).take a := mem_take_ranking hx (hlength ▸ ha)
    simp only [usable, hall, decide_true, Bool.true_and]
    rfl

/-- Of two sixes the later one is the highest to be dropped. -/
theorem DicePool.roll_keeping_sixes :
    let p : DicePool := { count := 4, faces := .sided 6 }
    let written : List WrittenModifier := [.dropHigh 1, .keepHigh 3]
    let pool := written.foldl (fun q w => q.attach (w.resolve q.count [])) p
    let run := pool.roll.run.run (Cup.fill none (Script.mk [2, 6, 6, 1]))
    ∃ q : DicePool, run.1 = .ok q ∧ q.results.text = "[2, 6, 6d, 1d]" ∧ q.total.integer? = some 8 := by
  intro p written pool run
  have hwritten : ∀ w ∈ written, (w.keeps? p.count).isSome = true := by decide
  obtain ⟨hfree, hrun⟩ := DicePool.roll_keeping (p := p) rfl rfl (by decide) hwritten
    (Cup.fill none (Script.mk [2, 6, 6, 1]))
  obtain ⟨q, cup', hq⟩ := hfree rfl
  obtain ⟨values, hlength, hrolled, hdrew, htotal⟩ := hrun q cup' hq
  have hresult : run = (.ok q, cup') := hq
  have htext : run.1.toOption.map (·.results.text) = some "[2, 6, 6d, 1d]" := by decide +kernel
  rw [hresult] at htext
  have hused : cup'.used = 4 := (congrArg (·.2.used) hresult).symm.trans (by decide +kernel)
  have hdrawn := hdrew.values_eq
  rw [hused, hrolled] at hdrawn
  obtain rfl : values = [2, 6, 6, 1] := List.map_injective_iff.2 (fun _ _ => Number.whole.inj) hdrawn
  have hsmall : ([2, 6, 6, 1] : List Int64).all (fun v => v.toInt.natAbs ≤ 2 ^ 53) = true := by decide
  obtain ⟨-, -, -, -, hsum⟩ := htotal fun v hv => of_decide_eq_true (List.all_eq_true.1 hsmall v hv)
  refine ⟨q, congrArg Prod.fst hresult, Option.some.inj htext, (hsum fun front hfront => ?_).trans ?_⟩
  · exact fits_sum_of_prefix (by decide +kernel) hfront
  · decide +kernel

end Tabletop
