import Tabletop.Proofs.Dice.Draws

/-! Sources that answer inside the range they are asked for. What is rolled with such a source shows a face of its die. -/
namespace Tabletop

/-- The source answers inside every range, in whatever state it is. -/
def RandomSource.InRange (σ : Type) [RandomSource σ] : Prop :=
  ∀ (low high : Int64) (source : σ), low.toInt ≤ high.toInt →
    low.toInt ≤ (RandomSource.between low high source).1.toInt ∧
      (RandomSource.between low high source).1.toInt ≤ high.toInt

/-- The number is a face of the die. -/
def Faces.Shows (faces : Faces) (v : Number) : Prop :=
  ∃ x : Int64, v = .whole x ∧ faces.low.toInt ≤ x.toInt ∧ x.toInt ≤ faces.high.toInt

/-- The offset stays below the width of the range, so nothing wraps around. -/
theorem Generator.inRange : RandomSource.InRange Generator := by
  intro low high g h
  change low.toInt ≤ (if high.toInt ≤ low.toInt then (low, g) else _).1.toInt ∧
    (if high.toInt ≤ low.toInt then (low, g) else _).1.toInt ≤ high.toInt
  split
  · exact ⟨Int.le_refl _, h⟩
  · have hwidth : 0 < (high.toInt - low.toInt + 1).toNat := by omega
    have hoffset := Nat.mod_lt g.next.1.toNat hwidth
    have hlow := low.le_toInt
    have hhigh := high.toInt_lt
    dsimp only
    rw [Int64.toInt_ofInt_of_le (by omega) (by omega)]
    omega

namespace Cup
variable {σ : Type} [RandomSource σ]

private theorem between_ends (hsource : RandomSource.InRange σ) {low high : Int64} (h : low.toInt ≤ high.toInt) :
    (between low high : RollM σ Int64).Ends (fun x => low.toInt ≤ x.toInt ∧ x.toInt ≤ high.toInt) AtLimit := by
  intro cup
  rw [run_between, charge]
  split
  · exact rfl
  · exact hsource low high cup.source h

theorem rollOne_ends (hsource : RandomSource.InRange σ) (faces : Faces) :
    (rollOne faces : RollM σ Number).Ends faces.Shows AtLimit :=
  (between_ends hsource faces.low_le_high).bind fun x hx => .pure ⟨x, rfl, hx⟩

private theorem shows_of_mem_answers (hsource : RandomSource.InRange σ) (faces : Faces) (n : Nat) (source : σ) :
    ∀ v ∈ (answers (List.replicate n faces) source).1, faces.Shows v := by
  induction n generalizing source with
  | zero => nofun
  | succ n ih =>
    rw [List.replicate_succ]
    exact List.forall_mem_cons.2 ⟨⟨_, rfl, hsource _ _ source faces.low_le_high⟩, ih _⟩

theorem roll_ends (hsource : RandomSource.InRange σ) (n : Nat) (faces : Faces) :
    (roll n faces : RollM σ (List Number)).Ends (fun vs => vs.length = n ∧ ∀ v ∈ vs, faces.Shows v) AtLimit := by
  intro cup
  rw [run_roll, charge]
  split
  · exact rfl
  · exact ⟨(length_answers _ _).trans List.length_replicate, shows_of_mem_answers hsource faces n cup.source⟩

end Cup
end Tabletop
