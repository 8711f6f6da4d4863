import ApiBaseline.Classify.Constraint
import ApiBaseline.Classify.Interface
import ApiBaseline.Classify.Override
import ApiBaseline.Classify.Parameter

/-!
# Member records

Constructors, methods and fields have records. Properties, events and nested
types have none: their accessors and definitions are recorded by themselves.
-/

namespace ApiBaseline

/-- What the members of a type are classified by. -/
structure MemberContext where
  module : Module
  definition : Definition
  interfaces : InterfaceTable
  visible : SignatureList

def Module.memberContext (m : Module) (d : Definition) : MemberContext :=
  ⟨m, d, m.interfaceTable d, m.visibleMethods d⟩

namespace MemberContext

def parameters (c : MemberContext) (m : Method) :
    Except ClassifyError (List ParameterRecord) :=
  m.params.mapM (c.module.parameterRecord (c.definition.name ++ "::" ++ m.name))

/-- The record of a constructor, which bears the name of its type. -/
def constructor (c : MemberContext) (m : Method) : Except ClassifyError MemberRecord := do
  let parameters ← c.parameters m
  return { MemberRecord.plain .constructor c.definition.simpleName m.access.accessibility with
    isStatic := m.isStatic
    parameters := parameters }

/-- The name of a method, in front of it the interface that it implements
explicitly, behind it its generic parameters. -/
def methodName (explicit : Option TypeRef) (m : Method) : String :=
  let qualified := match explicit with
    | some i => i.canonicalName ++ "." ++ m.name
    | none => m.name
  qualified ++ genericSuffix m.genericParams

def method (c : MemberContext) (position : Nat) (m : Method) :
    Except ClassifyError MemberRecord := do
  let explicit := c.interfaces.explicit? position m
  let implicit :=
    if explicit.isSome then none else c.interfaces.implemented? position
  let parameters ← c.parameters m
  return {
    kind := .method
    name := methodName explicit m
    visibility := m.access.accessibility
    isStatic := m.isStatic
    isSealed := m.isFinal
    isVirtual := m.isVirtual
    isOverride := c.module.isOverride c.definition m
    isAbstract := m.isAbstract
    isNew := c.definition.hides c.visible m
    isExtension := m.isExtension
    isConst := false
    isReadonly := false
    returnType := some m.returnType.canonicalName
    parameters := parameters
    constraints := c.module.constraintRecords m.genericParams
    explicitInterface := explicit.map (·.canonicalName)
    implementedInterface := implicit.map (·.canonicalName) }

def field (f : Field) : MemberRecord :=
  { MemberRecord.plain .field f.name f.access.accessibility with
    isStatic := f.isStatic
    isConst := f.isLiteral
    isReadonly := f.isInitOnly
    returnType := some f.type.canonicalName }

/-- The record of the member at a position, if it has one. -/
def classify (c : MemberContext) (position : Nat) :
    Member → Except ClassifyError (Option MemberRecord)
  | .constructor m => (c.constructor m).map some
  | .method m => (c.method position m).map some
  | .field f => .ok (some (field f))
  | .property _ | .event _ | .nestedType _ => .ok none
  | .unsupported => .error (.unsupportedMember c.definition.name position)

/-- The records of the type's members, in order, or the first error. -/
def classifyAll (c : MemberContext) : Except ClassifyError (List MemberRecord) := do
  let records ← c.definition.members.zipIdx.mapM fun (member, i) => c.classify i member
  return records.filterMap id

end MemberContext

end ApiBaseline
