import Tabletop.Proofs.Expression.Rolling
import Tabletop.Proofs.Expression.Scan

/-! The pass follows the scan. As long as the scan goes through, the pass has as many operands waiting as the scan
counts, and the program that it notes has the same height. -/
namespace Tabletop
open Expression (Pass)

/-- A pass has come as far as a scan of the same tokens. Where the scan has failed, so have the heights of the
program, even if the pass itself goes on. -/
structure Follows (scan : Option Scan) (p : Pass) : Prop where
  heights : p.program.reverse.foldlM Instruction.height? 0 = scan.map Scan.height
  waiting : ∀ s ∈ scan, p.waiting.length = s.height
  grouped : ∀ s ∈ scan, (s.grouped = true ↔ 0 < p.next)
  next_le : p.next ≤ p.groups.length
  known : ∀ k, .group k ∈ p.program → k < p.groups.length

/-- At most the limit of rolls can fail, unless the scan does. -/
def FailsFor (scan : Option Scan) (why : RollError) : Prop := scan.isSome → AtLimit why

private theorem heights_reverse_cons (i : Instruction) (program : List Instruction) :
    (i :: program).reverse.foldlM Instruction.height? 0 =
      program.reverse.foldlM Instruction.height? 0 >>= (Instruction.height? · i) := by
  rw [List.reverse_cons, List.foldlM_append]
  simp

namespace Follows
variable {σ : Type} [RandomSource σ] {scan : Option Scan} {p : Pass}

theorem start (gs : List PlacedGroup) : Follows (some .start) ⟨gs, [], [], 0⟩ where
  heights := rfl
  waiting := by simp [Scan.start]
  grouped := by simp [Scan.start]
  next_le := Nat.zero_le _
  known := nofun

private theorem withGroups (h : Follows scan p) {gs : List PlacedGroup} (hgs : gs.length = p.groups.length) :
    Follows scan { p with groups := gs } where
  heights := h.heights
  waiting := h.waiting
  grouped := h.grouped
  next_le := hgs ▸ h.next_le
  known k hk := hgs ▸ h.known k hk

/-- One operand more, on the stack and in the program. -/
theorem push (h : Follows scan p) {i : Instruction} (hi : ∀ n, i.height? n = some (n + 1)) (grouped : Bool)
    (operand : Option Nat) {gs : List PlacedGroup} {next : Nat} (hgs : p.groups.length ≤ gs.length)
    (hnext : next ≤ gs.length) (hgrouped : grouped = true ∨ 0 < p.next ↔ 0 < next)
    (hknown : ∀ k, i = .group k → k < gs.length) :
    Follows (scan.map (Scan.push grouped)) ⟨gs, i :: p.program, operand :: p.waiting, next⟩ where
  heights := by
    rw [heights_reverse_cons, h.heights]
    cases scan with
    | none => rfl
    | some s => exact hi s.height
  waiting := by
    intro s' hs'
    obtain ⟨s, hs, rfl⟩ := Option.map_eq_some_iff.1 hs'
    simp [Scan.push, h.waiting s hs]
  grouped := by
    intro s' hs'
    obtain ⟨s, hs, rfl⟩ := Option.map_eq_some_iff.1 hs'
    rw [← hgrouped, ← h.grouped s hs]
    simp [Scan.push]
  next_le := hnext
  known k hk := by
    rcases List.mem_cons.1 hk with heq | hk
    · exact hknown k heq.symm
    · exact Nat.lt_of_lt_of_le (h.known k hk) hgs

private theorem literal (h : Follows scan p) (value : Number) :
    Follows (scan.map (Scan.push false))
      { p with program := .literal value :: p.program, waiting := none :: p.waiting } :=
  h.push (fun _ => rfl) false none (Nat.le_refl _) h.next_le (by simp) nofun

/-- The group of an operand is there, whether it was made now or before. -/
theorem length_operand (h : p.next ≤ p.groups.length) (group : DiceGroup) (span : Text.Span) :
    p.next + 1 ≤ (p.operand group span).groups.length ∧
      p.groups.length ≤ (p.operand group span).groups.length := by
  rw [Pass.operand]
  split
  · rw [List.length_append, List.length_singleton]
    omega
  · dsimp only
    omega

private theorem operand (h : Follows scan p) (group : DiceGroup) (span : Text.Span) :
    Follows (scan.map (Scan.push true)) (p.operand group span) := by
  obtain ⟨hnext, hgs⟩ := length_operand h.next_le group span
  refine h.push (fun _ => rfl) true (some p.next) hgs hnext (by simp) fun k hk => ?_
  cases hk
  exact hnext

private theorem rollAt_ends (h : Follows scan p) (operand : Option Nat) :
    (p.rollAt operand : RollM σ Pass).Ends
      (fun q => Follows scan q ∧ q.waiting = p.waiting) AtLimit := by
  rw [Pass.rollAt_eq]
  refine (rollGroups_ends _ _).map fun gs hgs => ⟨h.withGroups ?_, rfl⟩
  simpa using congrArg List.length hgs

/-- Only a modifier with no group before it is refused. -/
theorem attach_ended (h : Follows scan p) (made : Nat) (m : WrittenModifier) (conditions : List Condition)
    (stop : Nat) :
    Ended (p.attach made m conditions stop) (Follows (scan.bind Scan.modifier?))
      (FailsFor (scan.bind Scan.modifier?)) := by
  obtain ⟨gs, program, waiting, _ | i⟩ := p
  · intro hsome
    cases scan with
    | none => cases hsome
    | some s => simp [Scan.modifier?, h.grouped s rfl] at hsome
  · have hscan : scan.bind Scan.modifier? = scan := by
      cases scan with
      | none => rfl
      | some s => simp [Scan.modifier?, h.grouped s rfl]
    rw [hscan, Pass.attach]
    cases hg : gs[i]? with
    | none =>
      simp only [hg]
      exact h
    | some g =>
      simp only [hg]
      by_cases hi : i < made
      · rw [if_pos hi]
        exact h
      · rw [if_neg hi]
        exact h.withGroups (List.length_set ..)

private theorem operator (h : Follows scan p) (op : Operator) {b : Option Nat} {rest : List (Option Nat)}
    (hw : p.waiting = b :: rest) :
    Follows (scan.bind (Scan.operator? op))
      { p with program := .operator op :: p.program, waiting := none :: rest.tail } where
  heights := by
    rw [heights_reverse_cons, h.heights]
    cases scan with
    | none => rfl
    | some s =>
      change op.height? s.height = _
      rw [Option.bind_some, Scan.operator?]
      cases op.height? s.height <;> rfl
  waiting := by
    intro s' hs'
    obtain ⟨s, hs, hop⟩ := Option.bind_eq_some_iff.1 hs'
    obtain ⟨height, hheight, rfl⟩ := Option.map_eq_some_iff.1 hop
    have hlen : rest.length + 1 = s.height := by rw [← h.waiting s hs, hw, List.length_cons]
    rw [← hlen] at hheight
    cases rest with
    | nil =>
      have hone : height = 1 := by simpa [Operator.height?, eq_comm] using (Option.ite_none_right_eq_some.1 hheight).2
      simp [hone]
    | cons a rest =>
      have hless : rest.length + 1 = height := Option.some.inj hheight
      simpa using hless
  grouped := by
    intro s' hs'
    obtain ⟨s, hs, hop⟩ := Option.bind_eq_some_iff.1 hs'
    obtain ⟨height, -, rfl⟩ := Option.map_eq_some_iff.1 hop
    exact h.grouped s hs
  next_le := h.next_le
  known k hk := h.known k (by simpa using hk)

private theorem operator_ends (h : Follows scan p) (op : Operator) :
    (p.operator op : RollM σ Pass).Ends (Follows (scan.bind (Scan.operator? op)))
      (FailsFor (scan.bind (Scan.operator? op))) := by
  rw [Pass.operator]
  cases hw : p.waiting with
  | nil =>
    apply RollM.Ends.throw
    intro hsome
    cases scan with
    | none => cases hsome
    | some s =>
      have hs : s.height = 0 := by rw [← h.waiting s rfl, hw, List.length_nil]
      simp [Scan.operator?, hs, Operator.height?] at hsome
  | cons b rest =>
    have hlimit : ∀ why, AtLimit why → FailsFor (scan.bind (Scan.operator? op)) why := fun _ hwhy _ => hwhy
    refine ((h.rollAt_ends b).mono (fun _ => id) hlimit).bind fun q hq => ?_
    refine ((hq.1.rollAt_ends rest.head?.join).mono (fun _ => id) hlimit).bind fun r hr => .pure ?_
    exact hr.1.operator op (hr.2.trans (hq.2.trans hw))

private theorem step_ends (h : Follows scan p) (made : Nat) (t : PlacedToken) :
    (p.step made t : RollM σ Pass).Ends (Follows (scan.bind (Scan.step · t)))
      (FailsFor (scan.bind (Scan.step · t))) := by
  have hmap : ∀ f : Scan → Scan, (scan.bind fun s => some (f s)) = scan.map f := fun f => by cases scan <;> rfl
  obtain ⟨token, span⟩ := t
  cases token with
  | modifier m conditions => exact .lift (h.attach_ended made m conditions span.stop)
  | operator op => exact h.operator_ends op
  | number value =>
    cases hspan : span.isEmpty with
    | true =>
      simp only [Pass.step, Scan.step, hspan, hmap]
      exact .pure (h.literal value)
    | false =>
      simp only [Pass.step, Scan.step, hspan, hmap]
      exact .pure (h.operand _ span)
  | dice | percentile | stunt =>
    simp only [Pass.step, Scan.step, hmap]
    exact .pure (h.operand _ span)

/-- A pass follows the scan over all of a token list. -/
theorem foldlM_step_ends (h : Follows scan p) (made : Nat) (tokens : List PlacedToken) :
    (tokens.foldlM (Pass.step made) p : RollM σ Pass).Ends (Follows (scan.bind (tokens.foldlM Scan.step)))
      (FailsFor (scan.bind (tokens.foldlM Scan.step))) := by
  induction tokens generalizing scan p with
  | nil =>
    have hscan : scan.bind ([].foldlM Scan.step) = scan := by cases scan <;> rfl
    rw [hscan]
    exact .pure h
  | cons t tokens ih =>
    have hscan : scan.bind ((t :: tokens).foldlM Scan.step) =
        (scan.bind (Scan.step · t)).bind (tokens.foldlM Scan.step) := by
      cases scan with
      | none => rfl
      | some s => exact List.foldlM_cons
    rw [hscan, List.foldlM_cons]
    refine ((h.step_ends made t).mono (fun _ => id) fun why hwhy hsome => hwhy ?_).bind fun q hq => ih hq
    exact Option.isSome_of_isSome_bind hsome

theorem finish_ends (h : Follows scan p) :
    (p.finish : RollM σ Pass).Ends (Follows scan) (fun why => scan.map Scan.height = some 1 → AtLimit why) := by
  have hheight : scan.map Scan.height = some 1 → p.waiting.length = 1 := by
    intro hone
    obtain ⟨s, hs, hs1⟩ := Option.map_eq_some_iff.1 hone
    rw [h.waiting s hs, hs1]
  rw [Pass.finish]
  rcases hw : p.waiting with _ | ⟨last, _ | ⟨more, rest⟩⟩
  · exact .throw fun hone => by simpa [hw] using hheight hone
  · exact (h.rollAt_ends last).mono (fun _ hq => hq.1) fun _ hwhy _ => hwhy
  · exact .throw fun hone => by simpa [hw] using hheight hone

end Follows
end Tabletop
