import Tabletop.Proofs.Notation.Tiling

/-! A text cut into words with gaps between and around them. The words stand in spans one behind the other; of a cut in
finer spans there is one in any coarser ones. -/
namespace Tabletop.Text

/-- A cut text: gaps and words in turn, with a gap at each end. -/
inductive Pieces where
  | last (gap : List Char)
  | word (gap w : List Char) (visible : w ≠ []) (rest : Pieces)

namespace Pieces

def text : Pieces → List Char
  | last gap => gap
  | word gap w _ rest => gap ++ w ++ rest.text

/-- Where the words stand in a text that starts at byte `pos`. -/
def spans : (pos : Nat) → Pieces → List Span
  | _, last _ => []
  | pos, word gap w _ rest => .behind pos gap w :: rest.spans (pos + byteLength gap + byteLength w)

/-- The text with others in the place of its words, as far as there are any. -/
def replace : Pieces → List (List Char) → List Char
  | word gap _ _ rest, d :: ds => gap ++ d ++ rest.replace ds
  | c, _ => c.text

/-- More text in front of the first gap. -/
def prepend (front : List Char) : Pieces → Pieces
  | last gap => last (front ++ gap)
  | word gap w visible rest => word (front ++ gap) w visible rest

@[simp] theorem text_prepend (front : List Char) (c : Pieces) : (c.prepend front).text = front ++ c.text := by
  cases c <;> simp [prepend, text]

@[simp] theorem spans_prepend (front : List Char) (c : Pieces) (pos : Nat) :
    (c.prepend front).spans pos = c.spans (pos + byteLength front) := by
  cases c <;> simp [prepend, spans, Span.behind, byteLength_append, Nat.add_assoc]

end Pieces

/-- From the start of one span to the end of another. -/
def Span.upTo (s t : Span) : Span := ⟨s.start, t.stop⟩

/-- Spans of which some are left out and some, next to each other, are joined. -/
inductive Coarser : List Span → List Span → Prop
  | nil : Coarser [] []
  | keep (s : Span) {ss ts : List Span} (h : Coarser ss ts) : Coarser (s :: ss) (s :: ts)
  | drop (s : Span) {ss ts : List Span} (h : Coarser ss ts) : Coarser (s :: ss) ts
  | join (s t : Span) {ss ts : List Span} (h : Coarser (s.upTo t :: ss) ts) : Coarser (s :: t :: ss) ts

namespace Coarser
variable {ss ts : List Span}

theorem append (h : Coarser ss ts) {ss' ts' : List Span} (h' : Coarser ss' ts') :
    Coarser (ss ++ ss') (ts ++ ts') := by
  induction h with
  | nil => exact h'
  | keep s h ih => exact .keep s ih
  | drop s h ih => exact .drop s ih
  | join s t h ih => exact .join s t ih

/-- All of several spans joined. -/
theorem joinAll (s : Span) (ss : List Span) : Coarser (s :: ss) [ss.foldl Span.upTo s] := by
  induction ss generalizing s with
  | nil => exact .keep s .nil
  | cons t ss ih => exact .join s t (ih (s.upTo t))

/-- A text that is cut finer is cut coarser, too. -/
theorem exists_pieces (h : Coarser ss ts) (c : Pieces) (pos : Nat) (hc : c.spans pos = ss) :
    ∃ d : Pieces, d.text = c.text ∧ d.spans pos = ts := by
  induction h generalizing c pos with
  | nil => exact ⟨c, rfl, hc⟩
  | keep s h ih =>
    cases c with
    | last gap => cases hc
    | word gap w visible rest =>
      obtain ⟨rfl, hrest⟩ := List.cons_eq_cons.1 hc
      obtain ⟨d, htext, hspans⟩ := ih rest _ hrest
      exact ⟨.word gap w visible d, by rw [Pieces.text, htext, Pieces.text], by rw [Pieces.spans, hspans]⟩
  | drop s h ih =>
    cases c with
    | last gap => cases hc
    | word gap w visible rest =>
      obtain ⟨-, hrest⟩ := List.cons_eq_cons.1 hc
      rw [Nat.add_assoc, ← byteLength_append, ← Pieces.spans_prepend] at hrest
      obtain ⟨d, htext, hspans⟩ := ih _ _ hrest
      exact ⟨d, by rw [htext, Pieces.text_prepend, Pieces.text], hspans⟩
  | @join s t ss ts h ih =>
    rcases c with gap | ⟨gap, w, visible, gap' | ⟨gap', w', visible', rest⟩⟩
    · cases hc
    · cases hc
    · obtain ⟨rfl, hnext⟩ := List.cons_eq_cons.1 hc
      obtain ⟨rfl, hrest⟩ := List.cons_eq_cons.1 hnext
      obtain ⟨d, htext, hspans⟩ := ih (.word gap (w ++ gap' ++ w') (by simp [visible]) rest) pos
        (by simp [Pieces.spans, Span.behind, Span.upTo, byteLength_append, Nat.add_assoc, ← hrest])
      exact ⟨d, by simp [htext, Pieces.text], hspans⟩

end Coarser
end Tabletop.Text

namespace Tabletop.Lexeme

/-- The lexemes cut the text that they tile. -/
theorem Tiles.exists_pieces {pos : Nat} {cs : List Char} {ls : List Placed} (h : Tiles pos cs ls) :
    ∃ c : Text.Pieces, c.text = cs ∧ c.spans pos = ls.map (·.span) := by
  induction h with
  | done => exact ⟨.last [], rfl, rfl⟩
  | @gap pos c cs ls hc h ih =>
    obtain ⟨d, htext, hspans⟩ := ih
    exact ⟨d.prepend [c], by rw [Text.Pieces.text_prepend, htext, List.singleton_append],
      by rw [Text.Pieces.spans_prepend]; exact hspans⟩
  | @lexeme pos w rest l ls hw hl h ih =>
    obtain ⟨d, htext, hspans⟩ := ih
    refine ⟨.word [] w hw d, by rw [Text.Pieces.text, htext, List.nil_append], ?_⟩
    rw [Text.Pieces.spans, Text.byteLength, Nat.add_zero, hspans]
    rfl

end Tabletop.Lexeme
