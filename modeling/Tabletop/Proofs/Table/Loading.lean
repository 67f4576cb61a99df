import Tabletop.Proofs.Table.References
import Tabletop.Table.Draw

/-! Loading of tables. Blanks around a reference make no difference, and what is loaded depends on the block that the
reference leads to. -/
namespace Tabletop

namespace Table
variable {store : Store} {build : String → Except RollError (Option Expression)} {text : String} {r : Reference}

theorem load_trim (store : Store) (build : String → Except RollError (Option Expression)) (text : String) :
    load store build (Text.trim text) = load store build text := by
  rw [load, load, Text.trim_trim]

theorem load_of_fetch (hread : Reference.read text = .ok r) {source : TableSource}
    (hblock : store.blocks.lookup (Store.key r.path r.block) = some source) :
    load store build text = do
      let lookup ← lookupOf build source
      let pool ← rowsOf r source
      return { text := Text.trim text, reference := r, pool, lookup } := by
  have hfetch : store.fetch r.path r.block = .ok source := by rw [Store.fetch, hblock]
  rw [load, Reference.read_trim hread]
  change (store.fetch r.path r.block >>= _) = _
  rw [hfetch]
  rfl

/-- A table cannot be loaded if its lookup's formula cannot be built. -/
theorem load_of_lookup_error (hread : Reference.read text = .ok r) {content formula : String} {why : RollError}
    (hblock : store.blocks.lookup (Store.key r.path r.block) = some (.markdown content))
    (hformula : (Markdown.ofText content).lookupFormula? = some formula) (hbuild : build formula = .error why) :
    load store build text = .error why := by
  have hlookup : lookupOf build (.markdown content) = .error why := by
    simp only [lookupOf, hformula, hbuild]
    rfl
  rw [load_of_fetch hread hblock, hlookup]
  rfl

end Table
end Tabletop
