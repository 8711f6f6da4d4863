import ApiBaseline.Classify.Member

/-!
# Type records

A type's record gathers what its identifier says and the records of its
members. A member without a record fails the type.
-/

namespace ApiBaseline

namespace Module

/-- The record of a type but for its members. -/
def typeHead (m : Module) (d : Definition) : TypeRecord where
  name := d.canonicalName
  kind := d.kind
  visibility := d.access.accessibility
  isStatic := d.kind == .class && d.isSealed && d.isAbstract
  isAbstract := d.isAbstract
  isSealed := d.isSealed
  baseType := (d.base.filter (!·.isRoot)).map (·.canonicalName)
  interfaces := m.introducedNames d.interfaces
  constraints := m.constraintRecords d.genericParams
  members := []

/-- The record of a type, or the first error among its members. -/
def classify (m : Module) (d : Definition) : Except ClassifyError TypeRecord := do
  let members ← (m.memberContext d).classifyAll
  return { m.typeHead d with members := members }

end Module

end ApiBaseline
