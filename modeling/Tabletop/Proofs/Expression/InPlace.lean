import Tabletop.Proofs.Dice.InPlace
import Tabletop.Proofs.Expression.Rolling

/-! The same roll made on one expression that is written to as it goes. Groups are made, given modifiers, rolled
and overwritten with averages where they stand, so a failure finds some of that done; it is taken back from what
was put aside before. Rolls made this way are the rolls of the library, and so a failure shows nowhere. -/
namespace Tabletop
open Expression (Pass)
variable {σ α β : Type}

/-- A computation that rolls dice and writes to an expression. What it wrote before a failure stays written. -/
abbrev EditM (σ : Type) := ExceptT RollError (StateT Expression (StateM (Cup σ)))

namespace EditM

/-- What a pass in place notes apart from the expression: the program in reverse, the operands that wait, and the
index of the next group. -/
structure Notes where
  program : List Instruction := []
  waiting : List (Option Nat) := []
  next : Nat := 0

def rolling (m : RollM σ α) : EditM σ α := ExceptT.mk (StateT.lift m.run)

def setGroup (i : Nat) (g : PlacedGroup) : EditM σ Unit := modify fun e => { e with groups := e.groups.set i g }

variable [RandomSource σ]

/-- Rolls the group of an operand. A group takes its new state when its own roll has succeeded. -/
def rollAt : (operand : Option Nat) → EditM σ Unit
  | none => return
  | some i => do
    match (← get).groups[i]? with
    | none => return
    | some g => setGroup i { g with group := ← rolling g.group.roll }

omit [RandomSource σ] in
def attach (made : Nat) (m : WrittenModifier) (conditions : List Condition) (stop : Nat) :
    (next : Nat) → EditM σ Unit
  | 0 => throw (.malformed .leadingModifier)
  | i + 1 => do
    match (← get).groups[i]? with
    | none => return
    | some g =>
      if i < made then return
      else
        let group := g.group.attach (m.resolve g.group.count conditions)
        setGroup i ⟨group, ⟨g.span.start, max g.span.stop stop⟩⟩

omit [RandomSource σ] in
def operand (group : DiceGroup) (span : Text.Span) (k : Notes) : EditM σ Notes := do
  modify fun e => { e with groups := if e.groups.length ≤ k.next then e.groups ++ [⟨group, span⟩] else e.groups }
  return { program := .group k.next :: k.program, waiting := some k.next :: k.waiting, next := k.next + 1 }

def operator (op : Operator) (k : Notes) : EditM σ Notes :=
  match k.waiting with
  | [] => throw (.malformed (.missingOperands op))
  | b :: rest => do
    rollAt b
    rollAt rest.head?.join
    return { k with program := .operator op :: k.program, waiting := none :: rest.tail }

def step (made : Nat) (k : Notes) (t : PlacedToken) : EditM σ Notes :=
  match t.token with
  | .modifier m conditions => do
    attach made m conditions t.span.stop k.next
    return k
  | .operator op => operator op k
  | .number value =>
    if t.span.isEmpty then
      return { k with program := .literal value :: k.program, waiting := none :: k.waiting }
    else operand (.literal { value }) t.span k
  | token =>
    match Expression.groupOf? token with
    | some group => operand group t.span k
    | none => return k

def finish (k : Notes) : EditM σ Unit :=
  match k.waiting with
  | [last] => rollAt last
  | [] => throw (.unreadable .empty)
  | _ => throw (.malformed .leftoverOperands)

/-- Rolls all groups where they stand. The program is exchanged when all are rolled. -/
def pass : EditM σ Unit := do
  let e ← get
  let k ← e.formula.tokens.foldlM (step e.groups.length) {}
  finish k
  modify fun e => { e with program := k.program.reverse }

omit [RandomSource σ] in
def recalculate : EditM σ Number := do
  liftM (← get).recalculate

/-- Overwrites a group with averages, and then with what its modifiers make of them. -/
def averageAt (i : Nat) : EditM σ Unit := do
  match (← get).groups[i]? with
  | none => return
  | some g =>
    if g.group.isLiteral then return
    else
      let group := g.group.setValues (List.replicate g.group.count (Number.float g.group.average))
      setGroup i { g with group }
      setGroup i { g with group := ← rolling group.reapply }

/-- Rolls an expression and folds its program. The value is written last. -/
def evaluate : EditM σ Number := do
  pass
  let value ← recalculate
  let e ← get
  if e.settings.mode = .average ∧ e.groups.all (·.group.supportsAverage) then
    forM (List.range e.groups.length) averageAt
    let value := (← recalculate).floor
    modify ({ · with averaged := true })
    modify ({ · with value := some value })
    return value
  else
    modify ({ · with value := some value })
    return value

end EditM

/-- Puts back what a roll has overwritten before it failed. -/
def Expression.takeBack (before left : Expression) : Expression :=
  { left with
    groups := before.groups, program := before.program, averaged := before.averaged, restored := before.restored }

/-- Rolls an expression in place. After a failure the groups, the program and the marks of the roll before are put
back. -/
def Expression.rollInPlace [RandomSource σ] (e : Expression) : StateM σ (Except RollError Number × Expression) :=
  fun source =>
    let cleared : Expression := { e with restored := none, averaged := false }
    let ((outcome, after), cup) := (EditM.evaluate.run.run cleared).run (Cup.fill e.settings.maxRolls source)
    let after : Expression := match outcome with
      | .ok _ => after
      | .error _ => e.takeBack after
    ((outcome, { after with used := cup.used }), cup.source)

/-- Takes over a stored roll in place. -/
def Expression.restoreInPlace (r : Record) : ExceptT RollError (StateM Expression) Unit := do
  if r.kind ≠ .expression then throw (.kindMismatch .expression r.kind)
  match r.value with
  | .number n =>
    modify ({ · with value := some n })
    modify ({ · with restored := some ⟨r.trace, r.stuntPoints⟩ })
  | .text _ => throw (.notANumber (← get).formula.text)

/-- A group with averages for its rolls, reworked. -/
def PlacedGroup.averaged [RandomSource σ] (g : PlacedGroup) : RollM σ PlacedGroup :=
  if g.group.isLiteral then return g
  else do
    let averages := List.replicate g.group.count (Number.float g.group.average)
    return { g with group := ← (g.group.setValues averages).reapply }

/-- What is not put back after a failure, and so must not be written before one. -/
def Expression.base (e : Expression) : Expression :=
  { e with groups := [], program := [], restored := none, averaged := false }

namespace EditM

/-- Run on `before`, a computation in place ends as `m` does, with the same dice, and leaves what `after` makes of
the result of `m`. After a failure only what is put back may differ from `before`. -/
def Follows (w : EditM σ β) (before : Expression) (m : RollM σ α) (after : α → β × Expression) : Prop :=
  ∀ cup, match m.run.run cup with
    | (.ok a, cup') => (w.run.run before).run cup = ((.ok (after a).1, (after a).2), cup')
    | (.error why, cup') => ∃ left : Expression, left.base = before.base ∧
        (w.run.run before).run cup = ((.error why, left), cup')

namespace Follows
variable {γ δ : Type} {w : EditM σ β} {before : Expression} {m : RollM σ α} {after : α → β × Expression}

private theorem pure {b : β} {a : α} (h : after a = (b, before)) :
    Follows (pure b : EditM σ β) before (pure a) after := by
  intro cup
  change _ = ((Except.ok (after a).1, (after a).2), cup)
  rw [h]
  rfl

private theorem throw (why : RollError) : Follows (throw why : EditM σ β) before (throw why : RollM σ α) after :=
  fun _ => ⟨before, rfl, rfl⟩

private theorem liftM (r : Except RollError α) :
    Follows (liftM r : EditM σ α) before (liftM r : RollM σ α) fun a => (a, before) := by
  cases r with
  | ok a => exact fun _ => rfl
  | error why => exact fun _ => ⟨before, rfl, rfl⟩

private theorem setGroup {i : Nat} {g : PlacedGroup} {a : α} {after : α → Unit × Expression}
    (h : after a = ((), { before with groups := before.groups.set i g })) :
    Follows (setGroup i g : EditM σ Unit) before (Pure.pure a) after := by
  intro cup
  change _ = ((Except.ok (after a).1, (after a).2), cup)
  rw [h]
  rfl

private theorem rolling (m : RollM σ α) : Follows (rolling m) before m fun a => (a, before) := by
  intro cup
  change match m.run.run cup with
    | (.ok a, cup') => (((m.run.run cup).1, before), (m.run.run cup).2) = ((.ok a, before), cup')
    | (.error why, cup') => ∃ left : Expression, left.base = before.base ∧
        (((m.run.run cup).1, before), (m.run.run cup).2) = ((.error why, left), cup')
  cases m.run.run cup with
  | mk result cup' =>
    cases result with
    | ok a => rfl
    | error why => exact ⟨before, rfl, rfl⟩

private theorem bind {k : β → EditM σ δ} {f : α → RollM σ γ} {next : γ → δ × Expression} (hw : Follows w before m after)
    (hbase : ∀ a, (after a).2.base = before.base) (hk : ∀ a, Follows (k (after a).1) (after a).2 (f a) next) :
    Follows (w >>= k) before (m >>= f) next := by
  intro cup
  have hfirst := hw cup
  rw [runState_bind, runEdit_bind]
  revert hfirst
  cases m.run.run cup with
  | mk result cup' =>
    cases result with
    | error why =>
      rintro ⟨left, hleft, hrun⟩
      rw [hrun]
      exact ⟨left, hleft, rfl⟩
    | ok a =>
      intro hrun
      have hrest := hk a cup'
      rw [hrun]
      revert hrest
      dsimp only
      cases (f a).run.run cup' with
      | mk result' cup'' =>
        cases result' with
        | ok c => exact id
        | error why => exact fun ⟨left, hleft, hlast⟩ => ⟨left, hleft.trans (hbase a), hlast⟩

private theorem map {f : α → γ} {next : γ → β × Expression} (hw : Follows w before m after)
    (h : ∀ a, after a = next (f a)) : Follows w before (f <$> m) next := by
  intro cup
  have hcup := hw cup
  rw [RollM.run_map]
  revert hcup
  cases m.run.run cup with
  | mk result cup' =>
    cases result with
    | ok a =>
      intro hrun
      change _ = ((Except.ok (next (f a)).1, (next (f a)).2), cup')
      rw [← h a]
      exact hrun
    | error why => exact id

private theorem get_bind {k : Expression → EditM σ β} (h : Follows (k before) before m after) :
    Follows (get >>= k) before m after := h

private theorem modify_bind {edit : Expression → Expression} {k : PUnit → EditM σ β}
    (hbase : (edit before).base = before.base) (h : Follows (k ⟨⟩) (edit before) m after) :
    Follows (modify edit >>= k) before m after := by
  intro cup
  have hcup := h cup
  revert hcup
  cases m.run.run cup with
  | mk result cup' =>
    cases result with
    | ok a => exact id
    | error why => exact fun ⟨left, hleft, hrun⟩ => ⟨left, hleft.trans hbase, hrun⟩

end Follows

variable [RandomSource σ]

/-- What a pass keeps apart from the groups. -/
def notes (p : Pass) : Notes := ⟨p.program, p.waiting, p.next⟩

/-- A pass after its step, seen from the expression it works on. -/
def written (e : Expression) (p : Pass) : Notes × Expression := (notes p, { e with groups := p.groups })

private theorem rollAt_follows (operand : Option Nat) (e : Expression) :
    Follows (rollAt operand : EditM σ Unit) e (rollGroups operand.toList e.groups)
      fun gs => ((), { e with groups := gs }) := by
  cases operand with
  | none => exact .pure rfl
  | some i =>
    rw [Option.toList_some, rollGroups_cons, rollAt]
    refine .get_bind ?_
    cases hg : e.groups[i]? with
    | none => simpa [rollGroup, hg, rollGroups_nil] using .pure rfl
    | some g =>
      rw [rollGroup_of_getElem? hg, bind_map_left]
      exact (Follows.rolling _).bind (fun _ => rfl) fun d cup => rfl

private theorem operator_follows (op : Operator) (e : Expression) (p : Pass) :
    Follows (operator op (notes p) : EditM σ Notes) { e with groups := p.groups } (p.operator op) (written e) := by
  obtain ⟨gs, program, waiting, next⟩ := p
  cases waiting with
  | nil => exact .throw _
  | cons b rest =>
    change Follows (rollAt b >>= fun _ => rollAt rest.head?.join >>= fun _ => Pure.pure _) _ (Pass.rollAt b _ >>= _) _
    rw [Pass.rollAt_eq, bind_map_left]
    refine (rollAt_follows b _).bind (fun _ => rfl) fun hs => ?_
    rw [Pass.rollAt_eq, bind_map_left]
    exact (rollAt_follows _ _).bind (fun _ => rfl) fun ks => .pure rfl

omit [RandomSource σ] in
private theorem attach_follows (made : Nat) (m : WrittenModifier) (conditions : List Condition) (stop : Nat)
    (e : Expression) (p : Pass) :
    Follows (attach made m conditions stop p.next >>= fun _ => pure (notes p) : EditM σ Notes)
      { e with groups := p.groups } (liftM (p.attach made m conditions stop)) (written e) := by
  obtain ⟨gs, program, waiting, _ | i⟩ := p
  · exact .throw _
  · rw [attach, bind_assoc]
    refine .get_bind ?_
    cases hg : gs[i]? with
    | none =>
      simp only [Pass.attach, hg]
      exact .pure rfl
    | some g =>
      simp only [Pass.attach, hg]
      split
      · exact .pure rfl
      · exact .modify_bind rfl (.pure rfl)

omit [RandomSource σ] in
private theorem operand_follows (group : DiceGroup) (span : Text.Span) (e : Expression) (p : Pass) :
    Follows (operand group span (notes p) : EditM σ Notes) { e with groups := p.groups } (pure (p.operand group span))
      (written e) := by
  exact .modify_bind rfl (.pure rfl)

private theorem step_follows (made : Nat) (e : Expression) (p : Pass) (t : PlacedToken) :
    Follows (step made (notes p) t : EditM σ Notes) { e with groups := p.groups } (p.step made t) (written e) := by
  obtain ⟨token, span⟩ := t
  cases token with
  | modifier m conditions => exact attach_follows made m conditions span.stop e p
  | operator op => exact operator_follows op e p
  | number value =>
    rw [step, Pass.step]
    dsimp only
    split
    · exact .pure rfl
    · exact operand_follows _ span e p
  | dice | percentile | stunt => exact operand_follows _ span e p

private theorem foldlM_step_follows (made : Nat) (ts : List PlacedToken) (e : Expression) (p : Pass) :
    Follows (ts.foldlM (step made) (notes p) : EditM σ Notes) { e with groups := p.groups }
      (ts.foldlM (Pass.step made) p) (written e) := by
  induction ts generalizing p with
  | nil => exact .pure rfl
  | cons t ts ih =>
    rw [List.foldlM_cons, List.foldlM_cons]
    exact (step_follows made e p t).bind (fun _ => rfl) ih

/-- The program goes in when the last group is rolled. -/
theorem finish_follows (e : Expression) (p : Pass) :
    Follows (finish (notes p) >>= fun _ => modify ({ · with program := p.program.reverse }) : EditM σ Unit)
      { e with groups := p.groups } (p.finish : RollM σ Pass)
      fun q => ((), { e with groups := q.groups, program := q.program.reverse }) := by
  obtain ⟨gs, program, waiting, next⟩ := p
  match waiting with
  | [] => exact .throw _
  | [last] =>
    change Follows (rollAt last >>= fun _ => modify _ : EditM σ Unit) _ (Pass.rollAt last _) _
    rw [Pass.rollAt_eq, map_eq_pure_bind]
    exact (rollAt_follows last _).bind (fun _ => rfl) fun _ _ => rfl
  | _ :: _ :: _ => exact .throw _

private theorem pass_follows (e : Expression) :
    Follows (pass : EditM σ Unit) e e.pass
      fun p => ((), { e with groups := p.groups, program := p.program.reverse }) := by
  rw [pass, Expression.pass]
  refine .get_bind ?_
  exact (foldlM_step_follows _ _ e ⟨e.groups, [], [], 0⟩).bind (fun _ => rfl) (finish_follows e)

omit [RandomSource σ] in
private theorem recalculate_follows (e : Expression) :
    Follows (recalculate : EditM σ Number) e (liftM (Instruction.run e.groups e.program)) fun v => (v, e) :=
  .get_bind (.liftM _)

private theorem averageAt_follows {e : Expression} {i : Nat} {g : PlacedGroup} (hg : e.groups[i]? = some g) :
    Follows (averageAt i : EditM σ Unit) e g.averaged fun h => ((), { e with groups := e.groups.set i h }) := by
  rw [averageAt, PlacedGroup.averaged]
  refine .get_bind ?_
  simp only [hg]
  split
  · refine .pure ?_
    obtain ⟨hi, rfl⟩ := List.getElem?_eq_some_iff.1 hg
    rw [List.set_getElem_self]
  · refine .modify_bind rfl ((Follows.rolling _).bind (fun _ => rfl) fun d => .setGroup ?_)
    rw [List.set_set]

/-- One group after the other is overwritten; those before are done and those behind are not. -/
theorem forM_averageAt_follows (e : Expression) (done rest : List PlacedGroup) :
    Follows (forM (List.range' done.length rest.length) averageAt : EditM σ Unit) { e with groups := done ++ rest }
      (rest.mapM PlacedGroup.averaged) fun gs => ((), { e with groups := done ++ gs }) := by
  induction rest generalizing done with
  | nil => exact .pure rfl
  | cons g rest ih =>
    rw [List.length_cons, List.range'_succ, List.forM_cons, List.mapM_cons]
    have hg : (done ++ g :: rest)[done.length]? = some g := by simp
    refine (averageAt_follows hg).bind (fun _ => rfl) fun h => ?_
    have hset : (done ++ g :: rest).set done.length h = done ++ h :: rest := by simp
    have hrest := ih (done ++ [h])
    simp only [List.length_append, List.length_singleton, List.append_assoc, List.singleton_append] at hrest
    rw [hset, ← map_eq_pure_bind]
    exact hrest.map fun _ => rfl

private theorem evaluate_follows (e : Expression) :
    Follows (evaluate : EditM σ Number) { e with restored := none, averaged := false } e.evaluated
      fun r => (r.2, r.1) := by
  rw [evaluate, Expression.evaluated]
  refine (pass_follows (σ := σ) _).bind (fun _ => rfl) fun p => ?_
  refine (recalculate_follows (σ := σ) _).bind (fun _ => rfl) fun value => .get_bind ?_
  dsimp only
  split
  · have haverage := forM_averageAt_follows (σ := σ)
      { e with program := p.program.reverse, restored := none, averaged := false } [] p.groups
    rw [List.range_eq_range']
    refine haverage.bind (fun _ => rfl) fun gs => ?_
    refine (recalculate_follows (σ := σ) _).bind (fun _ => rfl) fun value => ?_
    exact fun _ => rfl
  · exact fun _ => rfl

end EditM

namespace Expression
variable [RandomSource σ]

omit [RandomSource σ] in
private theorem takeBack_of_base_eq {e left : Expression} (h : left.base = e.base) : e.takeBack left = e := by
  obtain ⟨formula, settings, used, _, _, value, _, _⟩ := left
  obtain ⟨formula', settings', used', groups', program', value', averaged', restored'⟩ := e
  cases h
  rfl

/-- A roll in place is the roll that makes a new expression. What was put aside is what a failure needs. -/
theorem rollInPlace_eq_roll (e : Expression) : (e.rollInPlace : StateM σ _) = e.roll := by
  funext source
  have hfollows := EditM.evaluate_follows e (Cup.fill e.settings.maxRolls source)
  rw [rollInPlace, roll]
  revert hfollows
  cases e.evaluated.run.run (Cup.fill e.settings.maxRolls source) with
  | mk result cup =>
    cases result with
    | ok r =>
      intro hrun
      rw [hrun]
    | error why =>
      rintro ⟨left, hleft, hrun⟩
      rw [hrun]
      dsimp only
      rw [takeBack_of_base_eq (show left.base = e.base from hleft)]

private theorem restoreInPlace_eq_restore (e : Expression) (r : Record) :
    (restoreInPlace r).run.run e =
      match e.restore r with
      | .ok after => (.ok (), after)
      | .error why => (.error why, e) := by
  obtain ⟨kind, value, trace, stuntPoints, fragment⟩ := r
  cases kind with
  | expression => cases value <;> rfl
  | table | multi => rfl

/-- Everything that can be seen of an expression, but for the count of its latest roll. -/
structure ShowsAs (after before : Expression) : Prop where
  value : after.value = before.value
  rendered : after.rendered = before.rendered
  resultText : after.resultText = before.resultText
  trace : after.trace = before.trace
  fragment : after.fragment = before.fragment
  stuntPoints : after.stuntPoints? = before.stuntPoints?
  averaged : after.averaged = before.averaged
  advisories : after.advisories = before.advisories
  groups : after.groups = before.groups
  recalculate : after.recalculate = before.recalculate
  toRecord : after.toRecord = before.toRecord

omit [RandomSource σ] in
/-- The count is not among what is shown. -/
theorem ShowsAs.withUsed (e : Expression) (used : Nat) : ShowsAs { e with used } e :=
  ⟨rfl, rfl, rfl, rfl, rfl, rfl, rfl, rfl, rfl, rfl, rfl⟩

theorem roll_of_error {e : Expression} {source : σ} {why : RollError} (h : (e.roll source).1.1 = .error why) :
    (e.roll source).1.2 = { e with used := (e.roll source).1.2.used } := by
  revert h
  rw [roll]
  cases e.evaluated.run.run (Cup.fill e.settings.maxRolls source) with
  | mk result cup =>
    cases result with
    | ok r => exact nofun
    | error _ => exact fun _ => rfl

/-- A roll in place that fails, at whatever step, leaves all that can be seen of the expression as it was, and so
does the roll of the library, which is the same. A record that is refused leaves the whole expression as it was. -/
theorem rollInPlace_atomic (e : Expression) (source : σ) (r : Record) :
    (e.rollInPlace source = e.roll source ∧
      ∀ why, (e.rollInPlace source).1.1 = .error why → (e.rollInPlace source).1.2.ShowsAs e) ∧
    ((restoreInPlace r).run.run e =
        match e.restore r with
        | .ok after => (.ok (), after)
        | .error why => (.error why, e)) ∧
      ∀ why, ((restoreInPlace r).run.run e).1 = .error why → ((restoreInPlace r).run.run e).2 = e := by
  have hroll : e.rollInPlace source = e.roll source := congrFun e.rollInPlace_eq_roll source
  have hrestore := e.restoreInPlace_eq_restore r
  refine ⟨⟨hroll, fun why h => ?_⟩, hrestore, fun why h => ?_⟩
  · rw [hroll] at h ⊢
    rw [roll_of_error h]
    exact .withUsed e _
  · rw [hrestore] at h ⊢
    revert h
    cases e.restore r with
    | ok after => exact nofun
    | error _ => exact fun _ => rfl

/-- A die that must not be rolled, after it was given a record, and then given another one of a table. -/
theorem rollInPlace_atomic_d6 :
    let d6 : Formula := ⟨"d6", [⟨.dice 1 (.sided 6) [], ⟨0, 2⟩⟩]⟩
    let e : Expression :=
      { ofFormula d6 { maxRolls := some 0 } with value := some (.whole 4), restored := some ⟨"d6\n[4]", none⟩ }
    let r : Record := { kind := .table, value := .text "stone", trace := "" }
    ((e.rollInPlace (Script.mk [3])).1.1 = .error .tooManyRolls ∧ (e.rollInPlace (Script.mk [3])).1.2.ShowsAs e) ∧
      ((restoreInPlace r).run.run e).1 = .error (.kindMismatch .expression .table) ∧
      ((restoreInPlace r).run.run e).2 = e := by
  intro d6 e r
  obtain ⟨⟨-, hroll⟩, -, hrestore⟩ := rollInPlace_atomic e (Script.mk [3]) r
  have hfailed : (e.rollInPlace (Script.mk [3])).1.1 = .error .tooManyRolls := rfl
  have hrefused : ((restoreInPlace r).run.run e).1 = .error (.kindMismatch .expression .table) := rfl
  exact ⟨⟨hfailed, hroll _ hfailed⟩, hrefused, hrestore _ hrefused⟩

/-- Two dice of which one may be rolled: that one is taken back. -/
example :
    let f : Formula :=
      ⟨"d6+d6", [⟨.dice 1 (.sided 6) [], ⟨0, 2⟩⟩, ⟨.dice 1 (.sided 6) [], ⟨3, 5⟩⟩, ⟨.operator .add, ⟨2, 3⟩⟩]⟩
    let e := ofFormula f { maxRolls := some 1 }
    let left := ((EditM.evaluate.run.run e).run (Cup.fill (some 1) (Script.mk [3]))).1.2
    left.trace = "d6+d6\n[]+[3]" ∧ (e.takeBack left).trace = "d6+d6\nd6+d6" := ⟨rfl, rfl⟩

end Expression
end Tabletop
