import ApiBaseline.Classify.Type
import ApiBaseline.Filter

/-!
# Generating a document

A document has one record per accepted definition, in the module's order.
Types that a filter drops are not classified, so nothing in them can fail;
they still serve as bases and interfaces of the others.
-/

namespace ApiBaseline

/-- The document of a module, or the first error among accepted types. -/
def Module.generate (m : Module) (f : Filter) : Except ClassifyError Document := do
  let types ← (m.manifest.types.filter f.accepts).mapM m.classify
  return { identity := m.manifest.identity, types := types }

end ApiBaseline
