import ApiBaseline.Metadata.Closure
import ApiBaseline.Record.Basic

/-!
# Constraint records

Each constrained generic parameter has a record; a parameter without
constraints has none. The two roots constrain nothing, and an interface that
another one of the list extends is left out.
-/

namespace ApiBaseline

/-- The record says something. -/
def ConstraintRecord.isConstrained (c : ConstraintRecord) : Bool :=
  c.hasConstructor || c.isReferenceType || c.isValueType || !c.bounds.isEmpty

namespace Module

def introducedNames (m : Module) (declared : List TypeRef) : List String :=
  (m.introduced declared).map (·.canonicalName)

/-- What is said about a generic parameter. -/
def constraintRecord (m : Module) (p : GenericParam) : ConstraintRecord where
  parameterName := p.name
  bounds := (p.baseType.toList.filter (!·.isRoot)).map (·.canonicalName)
    ++ m.introducedNames p.interfaces
  hasConstructor := p.defaultConstructor
  isReferenceType := p.referenceType
  isValueType := p.valueType

def constraintRecords (m : Module) (params : List GenericParam) : List ConstraintRecord :=
  (params.map m.constraintRecord).filter (·.isConstrained)

end Module

end ApiBaseline
