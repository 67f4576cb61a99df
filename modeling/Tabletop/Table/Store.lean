import Tabletop.Error
import Tabletop.Text.Case

/-! Where tables are kept. -/
namespace Tabletop

/-- The content of a block: a list of rows, or a table in markdown. -/
inductive TableSource where
  | list (rows : List String)
  | markdown (content : String)
  deriving DecidableEq, Repr

/-- Blocks by path and name. Case does not count in names. -/
structure Store where
  blocks : List ((String × String) × TableSource) := []
  deriving DecidableEq, Repr

namespace Store

def key (path block : String) : String × String := (path, Text.lowerCase block)

/-- Adds a block, in place of one of the same name. -/
def insert (s : Store) (path block : String) (source : TableSource) : Store :=
  let k := key path block
  ⟨s.blocks.filter (·.1 ≠ k) ++ [(k, source)]⟩

def size (s : Store) : Nat := s.blocks.length

def fetch (s : Store) (path block : String) : Except RollError TableSource :=
  match s.blocks.lookup (key path block) with
  | some source => .ok source
  | none => .error (.missingReference path block none)

end Store
end Tabletop
