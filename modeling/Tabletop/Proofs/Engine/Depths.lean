import Tabletop.Engine

/-! The engine with its depths said out loud. Every table is loaded and every roller rolled at a depth that is handed
on, one more for what a table leads to, and nothing ends the descent but the ceiling at which no roller is built. What
would be done above the ceiling is left open. Whatever it is, the engine comes out the same, so it is never done. -/
namespace Tabletop
variable {σ : Type}

/-- What is done above the ceiling, if anything ever is. -/
structure Above (σ : Type) where
  load : (depth : Nat) → String → Except RollError Table
  roll : (depth : Nat) → Roller → StateM σ (Except RollError RollValue × Roller)

/-- Whether a part has a lookup formula, to be rolled one level deeper than the part. -/
def Part.looksUp : Part → Bool
  | expression _ => false
  | table t => t.lookup.isSome

def Roller.looksUp : Roller → Bool
  | part p => p.looksUp
  | batch b => b.parts.any Part.looksUp

namespace Engine
variable (g : Engine) (above : Above σ)

/-- Loads a table at a depth, with a builder for its lookup formula. -/
def loadAt (deeper : String → Except RollError Roller) (depth : Nat) (text : String) : Except RollError Table :=
  if g.settings.maxDepth < depth then above.load depth text else g.loadWith deeper text

/-- Builds one formula at a depth. -/
def partAt (deeper : String → Except RollError Roller) (depth : Nat) (text : String) : Except RollError Part := do
  let text := Text.trim text
  match Reference.read text with
  | .ok _ => return .table (← g.loadAt above deeper depth text)
  | .error _ =>
    let formula ← (g.read text).mapError .unreadable
    return .expression (.ofFormula formula g.settings)

/-- Builds a roller at a depth. The parts of several formulas lie as deep as the whole. -/
def buildAt (depth : Nat) (text : String) : Except RollError Roller :=
  if g.settings.maxDepth < depth then .error g.tooDeep
  else do
    let text := Text.trim text
    let part := g.partAt above (fun formula => buildAt (depth + 1) formula) depth
    if text.toList.contains ';' then return .batch (← batchWith part text) else return .part (← part text)
termination_by g.settings.maxDepth + 1 - depth

private theorem buildAt_of_lt {depth : Nat} (h : g.settings.maxDepth < depth) (text : String) :
    g.buildAt above depth text = .error g.tooDeep := by
  rw [buildAt, if_pos h]

private theorem le_of_buildAt {depth : Nat} {text : String} {roller : Roller}
    (h : g.buildAt above depth text = .ok roller) : depth ≤ g.settings.maxDepth := by
  refine Nat.le_of_not_lt fun hlt => ?_
  rw [g.buildAt_of_lt above hlt] at h
  cases h

variable [RandomSource σ]

/-- Rolls a roller at a depth: its lookups one level deeper, and the formulas in its rows by `deeper`. -/
def rollWith (deeper : RollFormula σ) (depth : Nat) (roller : Roller) :
    StateM σ (Except RollError RollValue × Roller) :=
  if g.settings.maxDepth < depth then above.roll depth roller
  else if roller.looksUp && g.settings.maxDepth < depth + 1 then above.roll (depth + 1) roller
  else roller.roll (.ok deeper)

/-- Builds and rolls a formula at a depth. -/
def formulaAt (depth : Nat) (text : String) : ExceptT RollError (StateM σ) Rolled :=
  match _h : g.buildAt above depth text with
  | .error why => throw why
  | .ok roller => do
    let (outcome, roller) ← (g.rollWith above (fun formula => formulaAt (depth + 1) formula) depth roller : StateM σ _)
    let value ← liftM outcome
    return ⟨value.shown, roller.fragment⟩
termination_by g.settings.maxDepth + 1 - depth
decreasing_by
  have hle := g.le_of_buildAt above (by assumption)
  omega

/-- Rolls a roller at a depth. -/
def rollAt (depth : Nat) (roller : Roller) : StateM σ (Except RollError RollValue × Roller) :=
  g.rollWith above (g.formulaAt above (depth + 1)) depth roller

omit [RandomSource σ] in
private theorem partAt_eq {depth : Nat} (h : depth ≤ g.settings.maxDepth) (deeper : String → Except RollError Roller) :
    g.partAt above deeper depth = g.partWith deeper := by
  have hload : g.loadAt above deeper depth = g.loadWith deeper := funext fun _ => if_neg (Nat.not_lt.2 h)
  funext text
  cases hread : Reference.read (Text.trim text) with
  | ok reference => simp only [partAt, partWith, hread, hload]
  | error why => simp only [partAt, partWith, hread]

omit [RandomSource σ] in
private theorem buildAt_eq (depth : Nat) : (fun text => g.buildAt above depth text) = g.buildWithin (g.room depth) := by
  induction hroom : g.room depth generalizing depth with
  | zero =>
    funext text
    exact g.buildAt_of_lt above (by rw [room] at hroom; omega) text
  | succ n ih =>
    rw [room] at hroom
    have hle : depth ≤ g.settings.maxDepth := by omega
    have hdeeper := ih (depth + 1) (by rw [room]; omega)
    funext text
    rw [buildAt, if_neg (Nat.not_lt.2 hle), hdeeper, g.partAt_eq above hle]
    rfl

end Engine

/-- Where two computations in a row succeed, both do. -/
theorem exists_of_bind_ok {ε α β : Type} {m : Except ε α} {f : α → Except ε β} {b : β} (h : m >>= f = .ok b) :
    ∃ a, m = .ok a ∧ f a = .ok b := by
  cases m with
  | ok a => exact ⟨a, rfl, h⟩
  | error why => cases h

private theorem exists_of_mem_mapM {ε α β : Type} {f : α → Except ε β} {as : List α} {bs : List β}
    (h : as.mapM f = .ok bs) {b : β} (hb : b ∈ bs) : ∃ a ∈ as, f a = .ok b := by
  induction as generalizing bs with
  | nil =>
    cases h
    cases hb
  | cons a as ih =>
    rw [List.mapM_cons] at h
    obtain ⟨c, hc, h⟩ := exists_of_bind_ok h
    obtain ⟨cs, hcs, h⟩ := exists_of_bind_ok h
    cases h
    rcases List.mem_cons.1 hb with rfl | hb
    · exact ⟨a, List.mem_cons_self, hc⟩
    · obtain ⟨x, hx, hfx⟩ := ih hcs hb
      exact ⟨x, List.mem_cons_of_mem a hx, hfx⟩

/-- A table has a lookup only if the lookup's formula could be built. -/
theorem Table.exists_build_of_load {store : Store} {build : String → Except RollError (Option Expression)}
    {text : String} {t : Table} (h : load store build text = .ok t) (hlookup : t.lookup.isSome = true) :
    ∃ formula e, build formula = .ok (some e) := by
  obtain ⟨reference, -, h⟩ := exists_of_bind_ok h
  obtain ⟨source, -, h⟩ := exists_of_bind_ok h
  obtain ⟨lookup, hl, h⟩ := exists_of_bind_ok h
  obtain ⟨pool, -, h⟩ := exists_of_bind_ok h
  cases h
  cases source with
  | list rows =>
    cases hl
    cases hlookup
  | markdown content =>
    rw [lookupOf] at hl
    cases hformula : (Markdown.ofText content).lookupFormula? with
    | none =>
      simp only [hformula] at hl
      cases hl
      cases hlookup
    | some formula =>
      simp only [hformula] at hl
      obtain ⟨e?, he, hl⟩ := exists_of_bind_ok hl
      cases hl
      cases e? with
      | none => cases hlookup
      | some e => exact ⟨formula, e, he⟩

namespace Engine
variable {g : Engine} {deeper : String → Except RollError Roller} {text : String}

private theorem exists_of_partWith {p : Part} (h : g.partWith deeper text = .ok p) (hlookup : p.looksUp = true) :
    ∃ formula roller, deeper formula = .ok roller := by
  rw [partWith] at h
  split at h
  · obtain ⟨t, ht, h⟩ := exists_of_bind_ok h
    cases h
    obtain ⟨formula, e, he⟩ := Table.exists_build_of_load ht hlookup
    cases hd : deeper formula with
    | ok roller => exact ⟨formula, roller, hd⟩
    | error why =>
      rw [hd] at he
      cases he
  · obtain ⟨f, -, h⟩ := exists_of_bind_ok h
    cases h
    cases hlookup

/-- What is to be rolled one level deeper was built there. -/
theorem exists_of_buildWith {roller : Roller} (h : g.buildWith deeper text = .ok roller)
    (hlookup : roller.looksUp = true) : ∃ formula built, deeper formula = .ok built := by
  rw [buildWith] at h
  split at h
  · obtain ⟨b, hb, h⟩ := exists_of_bind_ok h
    cases h
    rw [batchWith] at hb
    obtain ⟨parts, hparts, hb⟩ := exists_of_bind_ok hb
    obtain rfl := Except.ok.inj hb
    obtain ⟨p, hp, hp'⟩ := List.any_eq_true.1 hlookup
    obtain ⟨piece, -, hpiece⟩ := exists_of_mem_mapM hparts hp
    exact exists_of_partWith hpiece hp'
  · obtain ⟨p, hp, h⟩ := exists_of_bind_ok h
    cases h
    exact exists_of_partWith hp hlookup

theorem room_of_le {g : Engine} {depth : Nat} (h : depth ≤ g.settings.maxDepth) :
    g.room depth = g.room (depth + 1) + 1 := by
  rw [room, room]
  omega

private theorem room_succ {g : Engine} {depth n : Nat} (h : g.room depth = n + 1) :
    depth ≤ g.settings.maxDepth ∧ g.room (depth + 1) = n := by
  rw [room] at h ⊢
  omega

/-- What was built at a depth lies below the ceiling, its lookups included. -/
theorem not_above_of_build {roller : Roller} {depth : Nat} (h : g.build text depth = .ok roller) :
    depth ≤ g.settings.maxDepth ∧ (roller.looksUp = true → depth + 1 ≤ g.settings.maxDepth) := by
  rw [build] at h
  cases hroom : g.room depth with
  | zero =>
    rw [hroom] at h
    cases h
  | succ n =>
    rw [hroom] at h
    obtain ⟨hle, hroom'⟩ := room_succ hroom
    refine ⟨hle, fun hlookup => ?_⟩
    obtain ⟨formula, built, hbuilt⟩ := exists_of_buildWith h hlookup
    cases n with
    | zero => cases hbuilt
    | succ n => exact (room_succ hroom').1

variable [RandomSource σ] (above : Above σ)

private theorem rollWith_eq {roller : Roller} {depth : Nat} (h : g.build text depth = .ok roller)
    (deeper : RollFormula σ) : g.rollWith above deeper depth roller = roller.roll (.ok deeper) := by
  obtain ⟨hle, hlookup⟩ := not_above_of_build h
  rw [rollWith, if_neg (Nat.not_lt.2 hle), if_neg]
  intro hlt
  obtain ⟨hlooks, hlt⟩ := Bool.and_eq_true_iff.1 hlt
  exact Nat.not_lt.2 (hlookup hlooks) (of_decide_eq_true hlt)

private theorem formulaAt_eq (depth : Nat) :
    (fun text => g.formulaAt above depth text) = g.rollWithin (g.room depth) := by
  induction hroom : g.room depth generalizing depth with
  | zero =>
    funext text
    have hlt : g.settings.maxDepth < depth := by
      rw [room] at hroom
      omega
    have hbuild := g.buildAt_of_lt above hlt text
    rw [formulaAt]
    split
    · rename_i why hwhy
      cases hwhy.symm.trans hbuild
      rfl
    · rename_i roller hroller
      cases hroller.symm.trans hbuild
  | succ n ih =>
    obtain ⟨hle, hroom'⟩ := room_succ hroom
    have hdeeper := ih (depth + 1) hroom'
    funext text
    have hbuild : g.buildAt above depth text = g.build text depth := congrFun (g.buildAt_eq above depth) text
    have hwithin : g.build text depth = g.buildWith (g.buildWithin n) text := by rw [build, hroom, buildWithin]
    rw [formulaAt, rollWithin, ← hwithin]
    split
    · rename_i why hwhy
      rw [← hbuild, hwhy]
      rfl
    · rename_i roller hroller
      rw [hbuild] at hroller
      rw [hroller, hdeeper, rollWith_eq above hroller]
      rfl

/-- Building and rolling come to an end, and whatever would be done at a depth above the ceiling makes no difference to
them. -/
theorem rollAt_eq (depth : Nat) (text : String) :
    g.buildAt above depth text = g.build text depth ∧
      ∀ roller, g.build text depth = .ok roller → g.rollAt above depth roller = roller.roll (g.nested depth) := by
  refine ⟨congrFun (g.buildAt_eq above depth) text, fun roller hbuild => ?_⟩
  have hle := (not_above_of_build hbuild).1
  have hroom : g.room depth = g.room (depth + 1) + 1 := room_of_le hle
  have hformula : g.formulaAt above (depth + 1) = g.rollWithin (g.room (depth + 1)) := formulaAt_eq above (depth + 1)
  rw [rollAt, rollWith_eq above hbuild, nested, hroom, hformula]

end Engine
end Tabletop
