import Tabletop.Number.Basic

/-! Where rolled values come from. Nothing else in the library is left to chance, so a roll is a function
of the state of its source. -/
namespace Tabletop

/-- A source of integers. It is asked for an inclusive range; whether it keeps to it is its own
affair. -/
class RandomSource (σ : Type) where
  between : (low high : Int64) → σ → Int64 × σ

/-- Answers a fixed list of values and, when that is used up, the low end of every range. -/
structure Script where
  values : List Int64
  deriving DecidableEq, Repr

instance : RandomSource Script where
  between low _ s :=
    match s.values with
    | [] => (low, s)
    | v :: rest => (v, ⟨rest⟩)

/-- One question to a source and its answer. -/
structure Draw where
  low : Int64
  high : Int64
  value : Int64
  deriving DecidableEq, Repr

def Draw.text (d : Draw) : String :=
  toString d.low.toInt ++ ".." ++ toString d.high.toInt ++ "=" ++ toString d.value.toInt

/-- A source together with what was drawn from it, in order. -/
structure Recorded (σ : Type) where
  source : σ
  draws : Array Draw := #[]

instance {σ : Type} [RandomSource σ] : RandomSource (Recorded σ) where
  between low high s :=
    let (value, source) := RandomSource.between low high s.source
    (value, ⟨source, s.draws.push ⟨low, high, value⟩⟩)

/-- A generator of 64-bit words: a counter with a large odd step, its bits mixed on the way out. -/
structure Generator where
  counter : UInt64
  deriving DecidableEq, Repr

def Generator.next (g : Generator) : UInt64 × Generator :=
  let counter := g.counter + 0x9e3779b97f4a7c15
  let a := (counter ^^^ (counter >>> 30)) * 0xbf58476d1ce4e5b9
  let b := (a ^^^ (a >>> 27)) * 0x94d049bb133111eb
  (b ^^^ (b >>> 31), ⟨counter⟩)

/-- A range of one value, or turned around, needs no word. -/
instance : RandomSource Generator where
  between low high g :=
    if high.toInt ≤ low.toInt then (low, g)
    else
      let (word, g) := g.next
      let offset := word.toNat % (high.toInt - low.toInt + 1).toNat
      (Int64.ofInt (low.toInt + offset), g)

end Tabletop
