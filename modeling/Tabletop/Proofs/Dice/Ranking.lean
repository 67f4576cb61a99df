import Mathlib.Algebra.BigOperators.Group.List.Basic
import Mathlib.Algebra.Ring.Int.Defs
import Mathlib.Data.List.Nodup
import Mathlib.Data.List.Sort
import Tabletop.Dice.Rules

/-! Rolled values in rank order. Which value comes first is decided by a key, and by the place in the roll where keys are
equal, so there is one such order only: ranking by insertion finds it. -/
namespace Tabletop

section Insertion
variable {α : Type} {less : α → α → Bool}

private theorem insertRanked_eq_orderedInsert (x : α) (ys : List α) :
    insertRanked less x ys = ys.orderedInsert (fun a b => less a b = false) x := by
  induction ys with
  | nil => rfl
  | cons y ys ih =>
    rw [insertRanked, List.orderedInsert_cons, ih]
    cases less x y <;> rfl

private theorem ranked_eq_insertionSort (xs : List α) :
    ranked less xs = (xs.reverse.insertionSort fun a b => less a b = false).reverse := by
  rw [ranked, List.insertionSort, List.foldr_reverse]
  simp only [insertRanked_eq_orderedInsert]

theorem ranked_map {β : Type} (f : β → α) (xs : List β) :
    ranked less (xs.map f) = (ranked (fun a b => less (f a) (f b)) xs).map f := by
  rw [ranked_eq_insertionSort, ranked_eq_insertionSort, List.map_reverse, ← List.map_reverse]
  have hsort := List.map_insertionSort (fun a b => less (f a) (f b) = false) (fun a b => less a b = false) f xs.reverse
    fun _ _ _ _ => Iff.rfl
  rw [← hsort]

/-- Insertion compares an element only with those that come behind it in the list. -/
theorem insertionSort_congr {r s : α → α → Prop} [DecidableRel r] [DecidableRel s] {l : List α}
    (h : l.Pairwise fun a b => r a b ↔ s a b) : l.insertionSort r = l.insertionSort s := by
  have hinsert {a : α} {l : List α} (h : ∀ b ∈ l, r a b ↔ s a b) : l.orderedInsert r a = l.orderedInsert s a := by
    induction l with
    | nil => rfl
    | cons b l ih =>
      obtain ⟨hb, hl⟩ := List.forall_mem_cons.1 h
      simp only [List.orderedInsert_cons, hb, ih hl]
  induction h with
  | nil => rfl
  | @cons a l ha _ ih =>
    rw [List.insertionSort_cons, List.insertionSort_cons, ← ih]
    exact hinsert fun b hb => ha b ((List.mem_insertionSort r).1 hb)

end Insertion

/-- A value and its place come earlier than another in rank order, or are the same. -/
def Ahead (key : Int64 → Int) (x y : Int64 × Nat) : Prop := key x.1 < key y.1 ∨ key x.1 = key y.1 ∧ x.2 ≤ y.2

instance (key : Int64 → Int) : DecidableRel (Ahead key) := fun _ _ => inferInstanceAs (Decidable (_ ∨ _))

/-- Rolled values with their places, in rank order. -/
def ranking (key : Int64 → Int) (values : List Int64) : List (Int64 × Nat) :=
  values.zipIdx.insertionSort (Ahead key)

def highestFirst : List Int64 → List (Int64 × Nat) := ranking fun v => -v.toInt

def lowestFirst : List Int64 → List (Int64 × Nat) := ranking Int64.toInt

section Ranking
variable {key : Int64 → Int} {values : List Int64}

instance : Std.Total (Ahead key) := ⟨fun x y => by unfold Ahead; omega⟩

instance : IsTrans (Int64 × Nat) (Ahead key) := ⟨fun x y z => by unfold Ahead; omega⟩

private theorem pairwise_places (values : List Int64) : values.zipIdx.Pairwise fun x y => x.2 < y.2 := by
  rw [← List.pairwise_map (f := Prod.snd), List.zipIdx_map_snd]
  exact List.pairwise_lt_range'

private theorem eq_of_place_eq {x y : Int64 × Nat} (hx : x ∈ values.zipIdx) (hy : y ∈ values.zipIdx) (h : x.2 = y.2) :
    x = y := by
  have hplaces : (values.zipIdx.map Prod.snd).Nodup := List.pairwise_map.2 ((pairwise_places values).imp Nat.ne_of_lt)
  exact List.inj_on_of_nodup_map hplaces hx hy h

private theorem ranking_perm (key : Int64 → Int) (values : List Int64) : (ranking key values).Perm values.zipIdx :=
  List.perm_insertionSort ..

private theorem mem_ranking {x : Int64 × Nat} : x ∈ ranking key values ↔ x ∈ values.zipIdx :=
  (ranking_perm key values).mem_iff

private theorem ranking_nodup (key : Int64 → Int) (values : List Int64) : (ranking key values).Nodup :=
  (ranking_perm key values).nodup_iff.2 ((pairwise_places values).imp fun h he => Nat.ne_of_lt h (congrArg Prod.snd he))

/-- Ranking by a comparison of keys. -/
theorem ranked_zipIdx {less : Int64 × Nat → Int64 × Nat → Bool}
    (hless : ∀ x ∈ values.zipIdx, ∀ y ∈ values.zipIdx, less x y = true ↔ key x.1 < key y.1) :
    ranked less values.zipIdx = ranking key values := by
  -- Each element is inserted among those of earlier places, so of two equal keys the earlier place stays ahead.
  have hbehind : values.zipIdx.Pairwise fun x y => less y x = false ↔ Ahead key x y := by
    refine (pairwise_places values).imp_of_mem fun hx hy hplace => ?_
    rw [← Bool.not_eq_true, hless _ hy _ hx, Ahead]
    omega
  rw [ranked_eq_insertionSort, insertionSort_congr (s := fun x y => Ahead key y x) (List.pairwise_reverse.2 hbehind)]
  have hsorted : (values.zipIdx.reverse.insertionSort fun x y => Ahead key y x).Pairwise fun x y => Ahead key y x :=
    have : Std.Total fun x y => Ahead key y x := ⟨fun x y => Std.Total.total y x⟩
    have : IsTrans _ fun x y => Ahead key y x := ⟨fun x y z hxy hyz => IsTrans.trans z y x hyz hxy⟩
    List.pairwise_insertionSort _ _
  have hperm : (values.zipIdx.reverse.insertionSort fun x y => Ahead key y x).reverse.Perm (ranking key values) :=
    (List.reverse_perm _).trans <| (List.perm_insertionSort ..).trans <|
      (List.reverse_perm _).trans (ranking_perm key values).symm
  refine hperm.eq_of_pairwise (fun x y hx hy hxy hyx => ?_) (List.pairwise_reverse.2 hsorted)
    (List.pairwise_insertionSort _ _)
  refine eq_of_place_eq (mem_ranking.1 (hperm.mem_iff.1 hx)) (mem_ranking.1 hy) ?_
  unfold Ahead at hxy hyx
  omega

theorem mem_drop_ranking {x : Int64 × Nat} (hx : x ∈ values.zipIdx) (n : Nat) :
    x.2 ∈ ((ranking key values).drop n).map Prod.snd ↔ x ∉ (ranking key values).take n := by
  have hnodup : ((ranking key values).take n ++ (ranking key values).drop n).Nodup := by
    rw [List.take_append_drop]
    exact ranking_nodup key values
  have hall : x ∈ (ranking key values).take n ++ (ranking key values).drop n := by
    rw [List.take_append_drop]
    exact mem_ranking.2 hx
  constructor
  · intro hdrop htake
    obtain ⟨y, hy, hplace⟩ := List.mem_map.1 hdrop
    have hmem : y ∈ values.zipIdx := mem_ranking.1 (List.mem_of_mem_drop hy)
    obtain rfl := eq_of_place_eq hmem hx hplace
    exact (List.nodup_append.1 hnodup).2.2 y htake y hy rfl
  · intro htake
    exact List.mem_map_of_mem ((List.mem_append.1 hall).resolve_left htake)

theorem mem_take_ranking {x : Int64 × Nat} (hx : x ∈ values.zipIdx) {n : Nat} (hn : values.length ≤ n) :
    x ∈ (ranking key values).take n := by
  have hlength : (ranking key values).length ≤ n := by
    rwa [(ranking_perm key values).length_eq, List.length_zipIdx]
  rw [List.take_of_length_le hlength]
  exact mem_ranking.2 hx

/-- The values alone are sorted in one way, wherever they stand. -/
theorem map_toInt_ranking {r : Int → Int → Prop} [DecidableRel r] [Std.Total r] [IsTrans Int r] [Std.Antisymm r]
    (hr : ∀ v w : Int64, key v ≤ key w → r v.toInt w.toInt) :
    (ranking key values).map (·.1.toInt) = (values.map Int64.toInt).insertionSort r := by
  have hvalues : values.zipIdx.map (·.1.toInt) = values.map Int64.toInt := by
    change values.zipIdx.map (Int64.toInt ∘ Prod.fst) = _
    rw [← List.map_map, List.zipIdx_map_fst]
  have hperm : ((ranking key values).map (·.1.toInt)).Perm ((values.map Int64.toInt).insertionSort r) := by
    refine ((ranking_perm key values).map _).trans ?_
    rw [hvalues]
    exact (List.perm_insertionSort ..).symm
  refine hperm.eq_of_pairwise' (r := r) (List.pairwise_map.2 ?_) (List.pairwise_insertionSort _ _)
  refine List.Pairwise.imp ?_ (List.pairwise_insertionSort (Ahead key) values.zipIdx)
  intro x y hxy
  unfold Ahead at hxy
  exact hr x.1 y.1 (by omega)

/-- The first values in rank order, picked where they stand, add up to the first of the sorted values. -/
theorem sum_filter_ranking {r : Int → Int → Prop} [DecidableRel r] [Std.Total r] [IsTrans Int r] [Std.Antisymm r]
    (hr : ∀ v w : Int64, key v ≤ key w → r v.toInt w.toInt) {n : Nat} {picked : Int64 × Nat → Bool}
    (hpicked : ∀ x ∈ values.zipIdx, picked x = decide (x ∈ (ranking key values).take n)) :
    ((values.zipIdx.filter picked).map (·.1.toInt)).sum = (((values.map Int64.toInt).insertionSort r).take n).sum := by
  have hzip : values.zipIdx.Nodup := (ranking_perm key values).nodup_iff.1 (ranking_nodup key values)
  have hperm : (values.zipIdx.filter (· ∈ (ranking key values).take n)).Perm ((ranking key values).take n) := by
    refine (List.perm_ext_iff_of_nodup (hzip.filter _) ((ranking_nodup key values).sublist (List.take_sublist ..))).2 ?_
    intro x
    rw [List.mem_filter, decide_eq_true_eq, and_iff_right_iff_imp]
    exact fun hx => mem_ranking.1 (List.mem_of_mem_take hx)
  rw [List.filter_congr hpicked, (hperm.map _).sum_eq, List.map_take, map_toInt_ranking hr]

end Ranking
end Tabletop
