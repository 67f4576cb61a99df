import Tabletop.Proofs.Dice.Ends
import Tabletop.Proofs.Engine.Depths
import Tabletop.Proofs.Roller.Failure
import Tabletop.Proofs.Text.Splitting

/-! Texts with formulas in them. A text is cut at its complete markers from the left, in one way only, and the formulas
are built and rolled in that order until one fails. What they give stands in the place of the markers and is not read
again. -/
namespace Tabletop
variable {σ ρ : Type}

namespace Marker
variable {cs before formula after : List Char}

private theorem opening_ne_nil : opening ≠ [] := List.cons_ne_nil _ _

private theorem first?_eq_some_iff :
    first? cs = some (before, formula, after) ↔
      cs = before ++ opening ++ formula ++ closing ++ after ∧ ¬ opening <:+: before ∧ '\x60' ∉ formula := by
  have hopen (rest : List Char) : Text.splitFirst? opening cs = some (before, rest) ↔
      cs = before ++ opening ++ rest ∧ ¬ opening <:+: before := by
    have hmark : '\x60' ∉ "dice:".toList := by decide
    rw [Text.splitFirst?_eq_some_iff opening_ne_nil, opening, Text.infix_append_dropLast_iff hmark]
  have hclose (rest : List Char) : Text.splitFirst? closing rest = some (formula, after) ↔
      rest = formula ++ closing ++ after ∧ '\x60' ∉ formula := by
    rw [closing, Text.splitFirst?_singleton_eq_some_iff, List.append_assoc, List.singleton_append]
  constructor
  · intro h
    obtain ⟨⟨b, rest⟩, hb, h⟩ := Option.bind_eq_some_iff.1 h
    obtain ⟨⟨f, a⟩, hf, h⟩ := Option.bind_eq_some_iff.1 h
    cases h
    obtain ⟨rfl, hbefore⟩ := (hopen rest).1 hb
    obtain ⟨rfl, hformula⟩ := (hclose rest).1 hf
    exact ⟨by simp only [List.append_assoc], hbefore, hformula⟩
  · rintro ⟨hcs, hbefore, hformula⟩
    have hb := (hopen (formula ++ closing ++ after)).2 ⟨by simp only [hcs, List.append_assoc], hbefore⟩
    have hf := (hclose (formula ++ closing ++ after)).2 ⟨rfl, hformula⟩
    simp only [first?, hb, Option.bind_eq_bind, Option.bind_some, hf, Option.pure_def]

/-- A text has no complete marker if nothing that could open one has a closing behind it. -/
theorem first?_eq_none_iff : first? cs = none ↔ ∀ front back, cs = front ++ opening ++ back → '\x60' ∉ back := by
  constructor
  · intro h front back hcs hback
    obtain ⟨⟨before, rest⟩, hopen⟩ : ∃ cut, Text.splitFirst? opening cs = some cut := by
      by_contra hnone
      rw [← Option.ne_none_iff_exists', not_not, Text.splitFirst?_eq_none_iff opening_ne_nil] at hnone
      exact hnone ⟨front, back, hcs.symm⟩
    have hrest : '\x60' ∈ rest := (Text.suffix_of_splitFirst? opening_ne_nil hopen hcs).subset hback
    obtain ⟨formula, after, hrest, hformula⟩ := List.eq_append_cons_of_mem hrest
    have hclose : Text.splitFirst? closing rest = some (formula, after) :=
      Text.splitFirst?_singleton_eq_some_iff.2 ⟨hrest, hformula⟩
    simp [first?, hopen, hclose] at h
  · intro h
    by_contra hne
    obtain ⟨⟨before, formula, after⟩, hfirst⟩ := Option.ne_none_iff_exists'.1 hne
    have hcs := (first?_eq_some_iff.1 hfirst).1
    refine h before (formula ++ closing ++ after) (by simp only [hcs, List.append_assoc]) ?_
    simp [closing]

namespace Cut

/-- The text of a cut with something in the place of each marker. -/
def filled (c : Cut) (values : List (List Char)) : List Char :=
  (List.zipWith (fun part value => part.1 ++ value) c.parts values).flatten ++ c.tail

/-- The markers themselves. -/
def markers (c : Cut) : List (List Char) := c.parts.map fun part => opening ++ part.2 ++ closing

/-- The formulas without blanks around them. -/
def formulas (c : Cut) : List String := c.parts.map fun part => .ofList (Text.trimChars part.2)

/-- A way to cut a text greedily from the left: nothing before a marker could open one, a formula ends at the first
closing, and behind the last marker nothing that could open one is closed. -/
structure Of (c : Cut) (cs : List Char) : Prop where
  text : c.filled c.markers = cs
  before : ∀ part ∈ c.parts, ¬ opening <:+: part.1
  formula : ∀ part ∈ c.parts, '\x60' ∉ part.2
  tail : ∀ front back, c.tail = front ++ opening ++ back → '\x60' ∉ back

private theorem filled_cons (part : List Char × List Char) (parts : List (List Char × List Char))
    (tail value : List Char) (values : List (List Char)) :
    filled ⟨part :: parts, tail⟩ (value :: values) = part.1 ++ value ++ filled ⟨parts, tail⟩ values := by
  simp only [filled, List.zipWith_cons_cons, List.flatten_cons, List.append_assoc]

end Cut

private theorem cut_of_none (h : first? cs = none) : cut cs = ⟨[], cs⟩ := by
  rw [cut]
  split
  · rfl
  · rename_i hsome
    rw [h] at hsome
    cases hsome

private theorem cut_of_some (h : first? cs = some (before, formula, after)) :
    cut cs = ⟨(before, formula) :: (cut after).parts, (cut after).tail⟩ := by
  rw [cut]
  split
  · rename_i hnone
    rw [h] at hnone
    cases hnone
  · rename_i hsome
    rw [h] at hsome
    cases hsome
    rfl

namespace Cut

private theorem of_cut (cs : List Char) : (cut cs).Of cs := by
  induction cs using cut.induct with
  | case1 cs h =>
    rw [cut_of_none h]
    exact ⟨rfl, nofun, nofun, first?_eq_none_iff.1 h⟩
  | case2 cs before formula after h ih =>
    rw [cut_of_some h]
    obtain ⟨rfl, hbefore, hformula⟩ := first?_eq_some_iff.1 h
    refine ⟨?_, List.forall_mem_cons.2 ⟨hbefore, ih.before⟩, List.forall_mem_cons.2 ⟨hformula, ih.formula⟩, ih.tail⟩
    rw [markers, List.map_cons, filled_cons]
    have htext : filled (cut after) (cut after).markers = after := ih.text
    change before ++ (opening ++ formula ++ closing) ++ filled (cut after) (cut after).markers = _
    simp only [htext, List.append_assoc]

private theorem Of.eq_cut {c : Cut} (h : c.Of cs) : c = cut cs := by
  obtain ⟨parts, tail⟩ := c
  obtain ⟨htext, hbefore, hformula, htail⟩ := h
  induction parts generalizing cs with
  | nil =>
    obtain rfl : tail = cs := htext
    rw [cut_of_none (first?_eq_none_iff.2 htail)]
  | cons part parts ih =>
    rw [List.forall_mem_cons] at hbefore hformula
    rw [markers, List.map_cons, filled_cons] at htext
    have hfirst : first? cs = some (part.1, part.2, filled ⟨parts, tail⟩ (markers ⟨parts, tail⟩)) :=
      first?_eq_some_iff.2 ⟨by simp only [← htext, List.append_assoc]; rfl, hbefore.1, hformula.1⟩
    rw [cut_of_some hfirst, ← ih rfl hbefore.2 hformula.2 htail]

/-- There is one way to cut a text. -/
theorem of_iff {c : Cut} : c.Of cs ↔ c = cut cs := ⟨Of.eq_cut, fun h => h ▸ of_cut cs⟩

end Cut

end Marker

/-- What builds rollers for formulas and rolls them, each at a depth that it is told. Whatever this does besides is part
of the state. -/
structure RollerFactory (σ ρ : Type) where
  build : (text : String) → (depth : Nat) → StateM σ (Except RollError ρ)
  roll : ρ → (depth : Nat) → StateM σ (Except RollError RollValue × ρ)
  fragment : ρ → String

namespace RollerFactory
variable (f : RollerFactory σ ρ) (depth : Nat)

/-- Builds and rolls a formula. -/
def formula : RollFormula σ := fun text => do
  let roller ← ExceptT.mk (f.build text depth)
  let (outcome, roller) ← (f.roll roller depth : StateM σ _)
  let value ← liftM outcome
  return ⟨value.shown, f.fragment roller⟩

/-- A formula is built and rolled with success. -/
inductive Gives (text : String) : Rolled → σ → σ → Prop where
  | intro {roller roller' : ρ} {value : RollValue} {before between after : σ}
    (build : f.build text depth before = (.ok roller, between))
    (roll : f.roll roller depth between = ((.ok value, roller'), after)) :
    Gives text ⟨value.shown, f.fragment roller'⟩ before after

/-- A formula is not built, or built and not rolled. -/
inductive FailsWith (text : String) (why : RollError) : σ → σ → Prop where
  | build {before after : σ} (build : f.build text depth before = (.error why, after)) : FailsWith text why before after
  | roll {roller roller' : ρ} {before between after : σ} (build : f.build text depth before = (.ok roller, between))
    (roll : f.roll roller depth between = ((.error why, roller'), after)) : FailsWith text why before after

/-- Formulas are built and rolled with success one after the other, each from the state that the one before it left. -/
inductive Rolls : List String → List Rolled → σ → σ → Prop where
  | nil (source : σ) : Rolls [] [] source source
  | cons {text : String} {texts : List String} {rolled : Rolled} {rest : List Rolled} {before between after : σ}
    (first : f.Gives depth text rolled before between) (behind : Rolls texts rest between after) :
    Rolls (text :: texts) (rolled :: rest) before after

variable {f depth} {text : String} {before after : σ}

private theorem run_formula (f : RollerFactory σ ρ) (depth : Nat) (text : String) (source : σ) :
    (f.formula depth text).run.run source =
      match f.build text depth source with
      | (.error why, source) => (.error why, source)
      | (.ok roller, source) =>
        match f.roll roller depth source with
        | ((.error why, _), source) => (.error why, source)
        | ((.ok value, roller), source) => (.ok ⟨value.shown, f.fragment roller⟩, source) := by
  have hbuild : (ExceptT.mk (f.build text depth)).run.run source = f.build text depth source := rfl
  rw [formula, runState_bind, hbuild]
  cases f.build text depth source with
  | mk built source =>
    cases built with
    | error why => rfl
    | ok roller =>
      have hroll : (liftM (f.roll roller depth) : ExceptT RollError (StateM σ) _).run.run source =
        (.ok (f.roll roller depth source).1, (f.roll roller depth source).2) := rfl
      dsimp only
      rw [runState_bind, hroll]
      obtain ⟨⟨outcome, roller⟩, source⟩ := f.roll roller depth source
      cases outcome <;> rfl

private theorem formula_eq_ok_iff {rolled : Rolled} :
    (f.formula depth text).run.run before = (.ok rolled, after) ↔ f.Gives depth text rolled before after := by
  rw [run_formula]
  constructor
  · intro h
    split at h
    · cases h
    · rename_i hbuild
      split at h
      · cases h
      · rename_i hroll
        cases h
        exact .intro hbuild hroll
  · rintro ⟨hbuild, hroll⟩
    simp only [hbuild, hroll]

private theorem formula_eq_error_iff {why : RollError} :
    (f.formula depth text).run.run before = (.error why, after) ↔ f.FailsWith depth text why before after := by
  rw [run_formula]
  constructor
  · intro h
    split at h
    · rename_i hbuild
      cases h
      exact .build hbuild
    · rename_i hbuild
      split at h
      · rename_i hroll
        cases h
        exact .roll hbuild hroll
      · cases h
  · rintro (hbuild | ⟨hbuild, hroll⟩)
    · simp only [hbuild]
    · simp only [hbuild, hroll]

end RollerFactory

namespace Marker
variable {cs before formula after : List Char}

variable {f : RollerFactory σ ρ} {depth : Nat}

private theorem run_fill_cons (roll : RollFormula σ) (tail : List Char) (part : List Char × List Char)
    (parts : List (List Char × List Char)) (source : σ) :
    (fill roll tail (part :: parts)).run.run source =
      match (roll (.ofList (Text.trimChars part.2))).run.run source with
      | (.error why, source) => (.error why, source)
      | (.ok rolled, source) =>
        match (fill roll tail parts).run.run source with
        | (.error why, source) => (.error why, source)
        | (.ok (text, fragments), source) =>
          (.ok (part.1 ++ rolled.value.toList ++ text, rolled.fragment :: fragments), source) := by
  rw [fill, runState_bind]
  cases (roll (.ofList (Text.trimChars part.2))).run.run source with
  | mk outcome source =>
    cases outcome with
    | error why => rfl
    | ok rolled =>
      dsimp only
      rw [runState_bind]
      cases (fill roll tail parts).run.run source with
      | mk outcome source => cases outcome <;> rfl

variable {before after : σ} {c : Cut}

private theorem fill_eq_ok_iff {filling : List Char} {fragments : List String} :
    (fill (f.formula depth) c.tail c.parts).run.run before = (.ok (filling, fragments), after) ↔
      ∃ rolled, f.Rolls depth c.formulas rolled before after ∧
        filling = c.filled (rolled.map (·.value.toList)) ∧ fragments = rolled.map (·.fragment) := by
  obtain ⟨parts, tail⟩ := c
  dsimp only
  induction parts generalizing before filling fragments with
  | nil =>
    constructor
    · rintro ⟨⟩
      exact ⟨[], .nil _, rfl, rfl⟩
    · rintro ⟨rolled, ⟨⟩, rfl, rfl⟩
      rfl
  | cons part parts ih =>
    rw [run_fill_cons]
    constructor
    · intro h
      split at h
      · cases h
      · rename_i rolled between hfirst
        split at h
        · cases h
        · rename_i hrest
          cases h
          obtain ⟨rest, hrolls, rfl, rfl⟩ := ih.1 hrest
          refine ⟨rolled :: rest, .cons (RollerFactory.formula_eq_ok_iff.1 hfirst) hrolls, ?_, rfl⟩
          rw [List.map_cons, Cut.filled_cons]
    · rintro ⟨rolled, hrolls, rfl, rfl⟩
      cases hrolls with
      | cons hfirst hrest =>
        simp only [RollerFactory.formula_eq_ok_iff.2 hfirst, ih.2 ⟨_, hrest, rfl, rfl⟩, List.map_cons, Cut.filled_cons]

private theorem fill_eq_error_iff {why : RollError} :
    (fill (f.formula depth) c.tail c.parts).run.run before = (.error why, after) ↔
      ∃ done formula rest rolled between, c.formulas = done ++ formula :: rest ∧
        f.Rolls depth done rolled before between ∧ f.FailsWith depth formula why between after := by
  obtain ⟨parts, tail⟩ := c
  dsimp only
  induction parts generalizing before with
  | nil =>
    constructor
    · rintro ⟨⟩
    · rintro ⟨done, formula, rest, -, -, hsplit, -⟩
      simp [Cut.formulas] at hsplit
  | cons part parts ih =>
    rw [run_fill_cons]
    constructor
    · intro h
      split at h
      · rename_i hfirst
        cases h
        exact ⟨[], _, _, [], before, rfl, .nil before, RollerFactory.formula_eq_error_iff.1 hfirst⟩
      · rename_i rolled between hfirst
        split at h
        · rename_i hrest
          cases h
          obtain ⟨done, formula, rest, given, between', hsplit, hdone, hfails⟩ := ih.1 hrest
          have hcons : Cut.formulas ⟨part :: parts, tail⟩ =
              .ofList (Text.trimChars part.2) :: done ++ formula :: rest := congrArg (List.cons _) hsplit
          exact ⟨_, formula, rest, rolled :: given, between', hcons,
            .cons (RollerFactory.formula_eq_ok_iff.1 hfirst) hdone, hfails⟩
        · cases h
    · rintro ⟨done, formula, rest, rolled, between, hsplit, hdone, hfails⟩
      cases hdone with
      | nil =>
        obtain ⟨rfl, -⟩ := List.cons.inj hsplit
        simp only [RollerFactory.formula_eq_error_iff.2 hfails]
      | cons hfirst hdone =>
        obtain ⟨rfl, hbehind⟩ := List.cons.inj hsplit
        simp only [RollerFactory.formula_eq_ok_iff.2 hfirst, ih.2 ⟨_, _, _, _, _, hbehind, hdone, hfails⟩]

private theorem run_expand (roll : RollFormula σ) (text : String) (source : σ) :
    (expand roll text).run.run source =
      match (fill roll (cut text.toList).tail (cut text.toList).parts).run.run source with
      | (.error why, source) => (.error why, source)
      | (.ok (text, fragments), source) => (.ok (.ofList text, fragments), source) := by
  rw [expand]
  dsimp only
  rw [runState_bind]
  cases (fill roll (cut text.toList).tail (cut text.toList).parts).run.run source with
  | mk outcome source => cases outcome <;> rfl

private theorem expand_eq_ok_iff {text out : String} {fragments : List String} :
    (expand (f.formula depth) text).run.run before = (.ok (out, fragments), after) ↔
      ∃ rolled, f.Rolls depth (cut text.toList).formulas rolled before after ∧
        out.toList = (cut text.toList).filled (rolled.map (·.value.toList)) ∧ fragments = rolled.map (·.fragment) := by
  rw [← fill_eq_ok_iff, run_expand]
  constructor
  · intro h
    split at h
    · cases h
    · rename_i hfill
      cases h
      rw [hfill, String.toList_ofList]
  · intro hfill
    simp only [hfill, String.ofList_toList]

private theorem expand_eq_error_iff {text : String} {why : RollError} :
    (expand (f.formula depth) text).run.run before = (.error why, after) ↔
      ∃ done formula rest rolled between, (cut text.toList).formulas = done ++ formula :: rest ∧
        f.Rolls depth done rolled before between ∧ f.FailsWith depth formula why between after := by
  rw [← fill_eq_error_iff, run_expand]
  constructor
  · intro h
    split at h
    · rename_i hfill
      cases h
      rw [hfill]
    · cases h
  · intro hfill
    simp only [hfill]

private theorem cut_of_no_marker (h : ∀ front formula back, cs ≠ front ++ opening ++ formula ++ closing ++ back) :
    cut cs = ⟨[], cs⟩ := by
  refine cut_of_none ?_
  by_contra hne
  obtain ⟨⟨front, formula, back⟩, hfirst⟩ := Option.ne_none_iff_exists'.1 hne
  exact h front formula back (first?_eq_some_iff.1 hfirst).1

theorem run_expand_of_cut {text : String} (h : cut text.toList = ⟨[], text.toList⟩) (roll : RollFormula σ) (source : σ) :
    (expand roll text).run.run source = (.ok (text, []), source) := by
  rw [run_expand, h, fill]
  change (Except.ok (String.ofList text.toList, []), source) = _
  rw [String.ofList_toList]

end Marker

namespace Engine
variable [RandomSource σ]

/-- How an engine builds and rolls the formulas in its tables. -/
def factory (g : Engine) : RollerFactory σ Roller where
  build text depth := pure (g.build text depth)
  roll roller depth := roller.roll (g.nested depth)
  fragment := Roller.fragment

private theorem rollWithin_room (g : Engine) (depth : Nat) :
    g.rollWithin (g.room depth) = (g.factory : RollerFactory σ Roller).formula depth := by
  funext text
  simp only [RollerFactory.formula, factory, build, nested]
  cases g.room depth <;> rfl

private theorem nested_of_le {g : Engine} {depth : Nat} (h : depth ≤ g.settings.maxDepth) :
    g.nested depth = .ok ((g.factory : RollerFactory σ Roller).formula (depth + 1)) := by
  rw [nested, room_of_le h, ← rollWithin_room]

end Engine

/-- There is one way to cut a text at its markers from the left. Its formulas, without blanks around them, are built and
rolled in that order, each one level deeper and from the state that the one before it left. If all succeed, their values
stand in the place of the markers, whatever the values look like, and their traces follow each other. The first that is
not built or not rolled ends it with its failure, in the state that this one leaves. A text without a complete marker
stays as it is. An engine expands the rows of its tables in this way, down to its ceiling. There is always a level deeper,
which in 64 bits is so below `2^64 - 1`. -/
theorem Marker.expand_formulas (f : RollerFactory σ ρ) (depth : Nat) (text : String) (source : σ) :
    ∃ c : Cut, (∀ c' : Cut, c'.Of text.toList ↔ c' = c) ∧
      (∀ out fragments source',
        (expand (f.formula (depth + 1)) text).run.run source = (.ok (out, fragments), source') ↔
          ∃ rolled, f.Rolls (depth + 1) c.formulas rolled source source' ∧
            out.toList = c.filled (rolled.map (·.value.toList)) ∧ fragments = rolled.map (·.fragment)) ∧
      (∀ why source',
        (expand (f.formula (depth + 1)) text).run.run source = (.error why, source') ↔
          ∃ done formula rest rolled between, c.formulas = done ++ formula :: rest ∧
            f.Rolls (depth + 1) done rolled source between ∧
              f.FailsWith (depth + 1) formula why between source') ∧
      ((∀ front formula back, text.toList ≠ front ++ opening ++ formula ++ closing ++ back) →
        (expand (f.formula (depth + 1)) text).run.run source = (.ok (text, []), source)) ∧
      ∀ (g : Engine) [RandomSource σ], depth ≤ g.settings.maxDepth →
        g.nested depth = .ok ((g.factory : RollerFactory σ Roller).formula (depth + 1)) := by
  refine ⟨cut text.toList, fun c' => Cut.of_iff, fun out fragments source' => expand_eq_ok_iff,
    fun why source' => expand_eq_error_iff, fun h => ?_, fun g _ hdepth => Engine.nested_of_le hdepth⟩
  exact run_expand_of_cut (cut_of_no_marker h) _ source

/-- A formula that is not closed is no formula. -/
theorem Marker.expand_formulas_unclosed :
    (expand ((({} : Engine).factory : RollerFactory Script Roller).formula 1) "a \x60dice: 3").run.run (Script.mk []) =
      (.ok ("a \x60dice: 3", []), Script.mk []) := by
  obtain ⟨c, -, -, -, hplain, -⟩ :=
    expand_formulas (({} : Engine).factory : RollerFactory Script Roller) 0 "a \x60dice: 3" (Script.mk [])
  refine hplain fun front formula back h => ?_
  have hquotes : List.count '\x60' "a \x60dice: 3".toList = 1 := by decide
  rw [h, opening, closing] at hquotes
  simp only [List.count_append, List.count_cons_self, List.count_nil] at hquotes
  omega

example : Marker.cut "\x60dice: 1d6\x60, or \x60dice:2\x60; \x60dice: no end".toList =
    ⟨[([], " 1d6".toList), (", or ".toList, "2".toList)], "; \x60dice: no end".toList⟩ := by
  decide +kernel

end Tabletop
