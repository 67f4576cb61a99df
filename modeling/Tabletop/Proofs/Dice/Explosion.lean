import Tabletop.Proofs.Dice.Draws
import Tabletop.Proofs.Dice.Order

/-! Exploding dice. What is rolled depends on the values of the dice alone: each die in turn starts a streak. The modifiers
differ in what becomes of the streaks, so a modifier is the rolling of the streaks and then a change of the sequence that
draws nothing. -/
namespace Tabletop
variable {σ : Type} [RandomSource σ]

/-- Rolls the streak that a value starts. -/
def rollStreak (faces : Faces) (conditions : List Condition) : (times : Nat) → (latest : Number) → RollM σ (List Number)
  | 0, _ => return []
  | times + 1, latest =>
    if Condition.anyMet conditions latest then do
      let value ← Cup.rollOne faces
      return value :: (← rollStreak faces conditions times value)
    else return []

/-- Rolls the streak of every die, in the order shown. -/
def rollStreaks (faces : Faces) (conditions : List Condition) (times : Nat) (dice : List Die) :
    RollM σ (List (Die × List Number)) :=
  dice.mapM fun d => return (d, ← rollStreak faces conditions times d.value)

section Streaks
variable {faces : Faces} {conditions : List Condition} {times : Nat}

private theorem rollStreak_of_not_met {latest : Number} (h : Condition.anyMet conditions latest = false) :
    (rollStreak faces conditions times latest : RollM σ _) = pure [] := by
  cases times with
  | zero => rfl
  | succ times =>
    rw [rollStreak, h]
    rfl

private theorem rollStreak_draws (times : Nat) (latest : Number) :
    (rollStreak faces conditions times latest : RollM σ _).Draws faces fun rolls values =>
      values = rolls ∧ Streak conditions times latest rolls := by
  induction times generalizing latest with
  | zero => exact .pure ⟨rfl, .nil (.inl rfl)⟩
  | succ times ih =>
    cases hmet : Condition.anyMet conditions latest with
    | false =>
      rw [rollStreak_of_not_met hmet]
      exact .pure ⟨rfl, .nil (.inr hmet)⟩
    | true =>
      rw [rollStreak, if_pos hmet]
      refine (RollM.Draws.rollOne faces).bind fun value values hvalue => (ih value).bind fun rolls values' hrest => .pure ?_
      obtain rfl := hvalue
      obtain ⟨rfl, hstreak⟩ := hrest
      exact ⟨by rw [List.append_nil]; rfl, .cons hmet hstreak⟩

theorem rollStreaks_draws (dice : List Die) :
    (rollStreaks faces conditions times dice : RollM σ _).Draws faces fun grown values =>
      values = grown.flatMap Prod.snd ∧ grown.map Prod.fst = dice ∧
        ∀ g ∈ grown, Streak conditions times g.1.value g.2 := by
  refine .mapM (fun d => ?_) dice
  refine (rollStreak_draws times d.value).bind fun rolls values h => .pure ?_
  obtain ⟨rfl, hstreak⟩ := h
  exact ⟨List.append_nil _, rfl, hstreak⟩

private theorem rollStreaks_cons (d : Die) (dice : List Die) :
    (rollStreaks faces conditions times (d :: dice) : RollM σ _) = do
      let rolls ← rollStreak faces conditions times d.value
      let grown ← rollStreaks faces conditions times dice
      return (d, rolls) :: grown := by
  rw [rollStreaks, List.mapM_cons, bind_assoc]
  simp only [pure_bind]
  rfl

end Streaks

namespace DiceSequence
variable {s : DiceSequence} {dice : List (Nat × Die)} {faces : Faces} {conditions : List Condition} {times : Nat}

private theorem InOrder.filter_meets (h : s.InOrder dice) :
    s.ids.filter (s.meets conditions) =
      (dice.filter fun p => Condition.anyMet conditions p.2.value).map (·.1) := by
  rw [h.ids, List.filter_map]
  exact congrArg _ (List.filter_congr fun p hp => h.meets hp)

/-- A change made to one die of a sequence, for a streak that the die starts. In the place of the die stand the dice of
`view` then, the numbers of the others stay, and an empty streak changes nothing. -/
structure Grows (put : DiceSequence → Nat → List Number → DiceSequence) (view : Die → List Number → List Die) : Prop where
  put_nil (s : DiceSequence) (id : Nat) : put s id [] = s
  inOrder {s : DiceSequence} {front back : List (Nat × Die)} {id : Nat} {d : Die}
    (h : s.InOrder (front ++ (id, d) :: back)) (rolls : List Number) :
    ∃ block, (put s id rolls).InOrder (front ++ block ++ back) ∧ block.map (·.2) = view d rolls

variable {put : DiceSequence → Nat → List Number → DiceSequence} {view : Die → List Number → List Die}

/-- Makes the changes for a list of dice and their streaks, one after the other. -/
def putAll (put : DiceSequence → Nat → List Number → DiceSequence) (s : DiceSequence) (ids : List Nat)
    (grown : List (Die × List Number)) : DiceSequence :=
  (ids.zip grown).foldl (fun s p => put s p.1 p.2.2) s

/-- A loop over the dice that meet the conditions rolls the streaks of all dice, and its changes can as well be made when
all is rolled. -/
theorem Grows.foldlM_eq (hput : Grows put view) {body : DiceSequence → Nat → RollM σ DiceSequence}
    (hbody : ∀ {s : DiceSequence} {dice : List (Nat × Die)} {id : Nat} {d : Die}, s.InOrder dice → (id, d) ∈ dice →
      body s id = put s id <$> rollStreak faces conditions times d.value)
    {front : List (Nat × Die)} (h : s.InOrder (front ++ dice)) :
    ((dice.filter fun p => Condition.anyMet conditions p.2.value).map (·.1)).foldlM body s =
      putAll put s (dice.map (·.1)) <$> rollStreaks faces conditions times (dice.map (·.2)) := by
  induction dice generalizing front s with
  | nil =>
    change pure s = putAll put s [] <$> (pure [] : RollM σ _)
    rw [map_pure]
    rfl
  | cons p rest ih =>
    obtain ⟨id, d⟩ := p
    simp only [List.map_cons]
    rw [rollStreaks_cons, map_bind]
    cases hmet : Condition.anyMet conditions d.value with
    | true =>
      rw [List.filter_cons_of_pos (by exact hmet), List.map_cons, List.foldlM_cons,
        hbody h (List.mem_append_right front List.mem_cons_self), bind_map_left]
      refine bind_congr fun rolls => ?_
      -- What was put in joins the front, so the loop does not come to it.
      obtain ⟨block, hblock, -⟩ := hput.inOrder h rolls
      rw [ih hblock, map_bind, map_eq_pure_bind]
      refine bind_congr fun grown => ?_
      rw [map_pure]
      rfl
    | false =>
      rw [List.filter_cons_of_neg (by rw [hmet]; exact Bool.false_ne_true), rollStreak_of_not_met hmet, pure_bind]
      have hrest : s.InOrder ((front ++ [(id, d)]) ++ rest) := by rwa [List.append_assoc]
      rw [ih hrest, map_bind, map_eq_pure_bind]
      refine bind_congr fun grown => ?_
      rw [map_pure, putAll, putAll, List.zip_cons_cons, List.foldl_cons, hput.put_nil]

private theorem Grows.inOrder_putAll (hput : Grows put view) {front : List (Nat × Die)} (h : s.InOrder (front ++ dice))
    {grown : List (Die × List Number)} (hgrown : grown.map Prod.fst = dice.map (·.2)) :
    ∃ after, (putAll put s (dice.map (·.1)) grown).InOrder (front ++ after) ∧
      after.map (·.2) = grown.flatMap fun g => view g.1 g.2 := by
  induction dice generalizing front s grown with
  | nil =>
    obtain rfl : grown = [] := List.map_eq_nil_iff.1 hgrown
    exact ⟨[], h, rfl⟩
  | cons p rest ih =>
    obtain ⟨id, d⟩ := p
    obtain ⟨⟨_, rolls⟩, others, rfl, rfl, hothers⟩ := List.map_eq_cons_iff.1 hgrown
    obtain ⟨block, hblock, hview⟩ := hput.inOrder h rolls
    obtain ⟨after, hafter, hrest⟩ := ih hblock hothers
    refine ⟨block ++ after, ?_, ?_⟩
    · rwa [← List.append_assoc]
    · rw [List.map_append, hview, hrest, List.flatMap_cons]

/-- The whole loop: it rolls the streaks, and in the place of every die stand the dice of `view` then. -/
theorem Grows.exists_build (hput : Grows put view) {body : DiceSequence → Nat → RollM σ DiceSequence}
    (hbody : ∀ {s : DiceSequence} {dice : List (Nat × Die)} {id : Nat} {d : Die}, s.InOrder dice → (id, d) ∈ dice →
      body s id = put s id <$> rollStreak faces conditions times d.value) (hs : s.Built) :
    ∃ build : List (Die × List Number) → DiceSequence,
      (s.ids.filter (s.meets conditions)).foldlM body s =
        build <$> rollStreaks faces conditions times s.toList ∧
      ∀ grown, grown.map Prod.fst = s.toList → (build grown).toList = grown.flatMap fun g => view g.1 g.2 := by
  obtain ⟨dice, h⟩ := hs.exists_inOrder
  have hall : s.InOrder ([] ++ dice) := h
  refine ⟨putAll put s s.ids, ?_, fun grown hgrown => ?_⟩
  · rw [h.filter_meets, h.ids, h.toList]
    exact hput.foldlM_eq hbody hall
  · rw [h.toList] at hgrown
    obtain ⟨after, hafter, hview⟩ := hput.inOrder_putAll hall hgrown
    rw [h.ids, hafter.toList, ← hview]
    rfl

/-- Puts a streak behind a die, each roll behind the one that led to it. -/
def putBehind (s : DiceSequence) (id : Nat) : List Number → DiceSequence
  | [] => s
  | v :: rolls => ((s.modify id (·.tag .exploded)).insertAfter id (.rolled v)).putBehind s.size rolls

omit [RandomSource σ] in
private theorem InOrder.explodeOnce {front back : List (Nat × Die)} {id : Nat} {d : Die}
    (h : s.InOrder (front ++ (id, d) :: back)) (v : Number) :
    ((s.modify id (·.tag .exploded)).insertAfter id (.rolled v)).InOrder
      (front ++ (id, d.tag .exploded) :: (s.size, .rolled v) :: back) := by
  have hinserted := (h.modify_mid (·.tag .exploded)).insertAfter (.rolled v)
  rwa [size_modify] at hinserted

private theorem explodeDie_eq (h : s.InOrder dice) {id : Nat} {d : Die} (hd : (id, d) ∈ dice) :
    (explodeDie faces conditions times id s : RollM σ _) =
      s.putBehind id <$> rollStreak faces conditions times d.value := by
  induction times generalizing s dice id d with
  | zero =>
    rw [explodeDie, rollStreak, map_pure]
    rfl
  | succ times ih =>
    rw [explodeDie, h.meets hd]
    cases hmet : Condition.anyMet conditions d.value with
    | false =>
      rw [rollStreak_of_not_met hmet, map_pure]
      rfl
    | true =>
      rw [rollStreak, if_pos hmet, if_pos rfl, map_bind]
      refine bind_congr fun value => ?_
      obtain ⟨front, back, rfl⟩ := List.append_of_mem hd
      have hnew : (s.size, Die.rolled value) ∈ front ++ (id, d.tag .exploded) :: (s.size, .rolled value) :: back := by
        simp
      rw [ih (h.explodeOnce value) hnew, map_bind, map_eq_pure_bind]
      refine bind_congr fun rolls => ?_
      rw [map_pure]
      rfl

end DiceSequence

/-- A die with its streak behind it. The tag is on every die for which another one was rolled. -/
def Die.exploded (d : Die) : List Number → List Die
  | [] => [d]
  | v :: rolls => d.tag .exploded :: (Die.rolled v).exploded rolls

namespace DiceSequence

private theorem grows_putBehind : Grows putBehind Die.exploded where
  put_nil _ _ := rfl
  inOrder := by
    intro s front back id d h rolls
    induction rolls generalizing s front id d with
    | nil => exact ⟨[(id, d)], by rwa [List.append_assoc], rfl⟩
    | cons v rolls ih =>
      have honce := h.explodeOnce v
      rw [List.append_cons] at honce
      obtain ⟨block, hblock, hview⟩ := ih honce
      refine ⟨(id, d.tag .exploded) :: block, ?_, congrArg _ hview⟩
      rwa [List.append_assoc front, List.singleton_append] at hblock

/-- What an exploding modifier rolls are the streaks of the dice. -/
theorem exists_explode_eq {s : DiceSequence} (hs : s.Built) (faces : Faces) (times : Nat) (conditions : List Condition) :
    ∃ build : List (Die × List Number) → DiceSequence,
      (s.explode faces times conditions : RollM σ _) = build <$> rollStreaks faces conditions times s.toList ∧
      ∀ grown, grown.map Prod.fst = s.toList → (build grown).toList = grown.flatMap fun g => g.1.exploded g.2 :=
  grows_putBehind.exists_build (fun h hd => explodeDie_eq h hd) hs

end DiceSequence

/-- Explosions of any sequence of dice. `!` and `!i` stand for a count of 100, and without conditions the highest face
explodes. No limit, no failure; and when the modifier succeeds, each die stands where it stood, followed by its own
streak: the values drawn on from it, up to and including the first that fails the conditions, as many as the count
allows. The streaks are drawn in the order shown, and nothing else is drawn. -/
theorem WrittenModifier.explode_toList (r : Repeats) (count : Nat) (conditions : List Condition) (faces : Faces)
    {s : DiceSequence} (hs : s.Built) (cup : Cup σ) :
    let m := (WrittenModifier.explode r).resolve count conditions
    let times := match r with | .unbounded => 100 | .times n => n
    let exploding := if conditions.isEmpty then [.equalTo faces.high] else conditions
    (cup.limit = none → ∃ t cup', (m.apply faces s).run.run cup = (.ok t, cup')) ∧
    ∀ t cup', (m.apply faces s).run.run cup = (.ok t, cup') →
      ∃ grown : List (Die × List Number),
        grown.map Prod.fst = s.toList ∧
        t.toList = (grown.flatMap fun g => g.1.exploded g.2) ∧
        (∀ g ∈ grown, Streak exploding times g.1.value g.2) ∧
        cup.Drew faces (grown.flatMap Prod.snd) cup' := by
  intro m times exploding
  have htimes : m.count = times := by cases r <;> rfl
  refine ⟨(m.apply_rolls faces s).exists_ok cup, fun t cup' hrun => ?_⟩
  obtain ⟨build, hbuild, hview⟩ := DiceSequence.exists_explode_eq (σ := σ) hs faces times exploding
  have hdraws : (m.apply faces s : RollM σ _).Draws faces fun t values =>
      ∃ grown : List (Die × List Number), grown.map Prod.fst = s.toList ∧
        t.toList = (grown.flatMap fun g => g.1.exploded g.2) ∧
        (∀ g ∈ grown, Streak exploding times g.1.value g.2) ∧ values = grown.flatMap Prod.snd := by
    change (s.explode faces m.count exploding : RollM σ _).Draws faces _
    rw [htimes, hbuild]
    exact (rollStreaks_draws s.toList).map fun grown values h => ⟨grown, h.2.1, hview grown h.2.1, h.2.2, h.1⟩
  obtain ⟨values, hdrew, grown, hfirst, hlist, hstreaks, rfl⟩ := hdraws cup t cup' hrun
  exact ⟨grown, hfirst, hlist, hstreaks, hdrew⟩

/-- The first six leads to another one, and that one to a three. -/
theorem WrittenModifier.explode_toList_sixes :
    let s := DiceSequence.ofValues [.whole 6, .whole 2, .whole 6]
    let m := (WrittenModifier.explode .unbounded).resolve 3 []
    let run := (m.apply (.sided 6) s).run.run (Cup.fill none (Script.mk [6, 3, 1]))
    ∃ (t : DiceSequence) (grown : List (Die × List Number)), run.1 = .ok t ∧ t.text = "[6!, 6!, 3, 2, 6!, 1]" ∧
      grown.map Prod.fst = s.toList ∧ t.toList = (grown.flatMap fun g => g.1.exploded g.2) ∧
      grown.flatMap Prod.snd = [.whole 6, .whole 3, .whole 1] := by
  intro s m run
  obtain ⟨hfree, hrun⟩ := WrittenModifier.explode_toList .unbounded 3 [] (.sided 6) (s := s) (.ofValues _)
    (Cup.fill none (Script.mk [6, 3, 1]))
  obtain ⟨t, cup', ht⟩ := hfree rfl
  obtain ⟨grown, hfirst, hlist, -, hdrew⟩ := hrun t cup' ht
  have hresult : run = (.ok t, cup') := ht
  have htext : run.1.toOption.map (·.text) = some "[6!, 6!, 3, 2, 6!, 1]" := by decide +kernel
  rw [hresult] at htext
  have hused : cup'.used = 3 := (congrArg (·.2.used) hresult).symm.trans (by decide +kernel)
  have hdrawn := hdrew.values_eq
  rw [hused] at hdrawn
  exact ⟨t, grown, congrArg Prod.fst hresult, Option.some.inj htext, hfirst, hlist, hdrawn⟩

end Tabletop
