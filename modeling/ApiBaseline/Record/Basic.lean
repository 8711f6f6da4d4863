import ApiBaseline.Metadata.Definition

/-!
# Records

A document is the flat snapshot of a module's interface to its users: one
record per type, and in it one record per constructor, method and field.
Records hold texts in canonical form, never references, so that documents of
separately compiled modules can be compared.
-/

namespace ApiBaseline

/-- How an argument is passed. -/
inductive Direction where
  | in
  | ref
  | out
  deriving DecidableEq, Repr, Inhabited

instance : Named Direction where
  all := [.in, .ref, .out]
  name
    | .in => "in"
    | .ref => "ref"
    | .out => "out"

/-- What a member record describes. -/
inductive MemberKind where
  | constructor
  | method
  | field
  deriving DecidableEq, Repr, Inhabited

instance : Named MemberKind where
  all := [.constructor, .method, .field]
  name
    | .constructor => "constructor"
    | .method => "method"
    | .field => "field"

/-- A parameter of a constructor or method. -/
structure ParameterRecord where
  name : String
  typeName : String
  direction : Direction
  /-- The default as a literal. -/
  defaultValue : Option String
  isVariadic : Bool
  deriving DecidableEq, Repr

/-- The constraints of one generic parameter. -/
structure ConstraintRecord where
  parameterName : String
  /-- The base class, if any, and then the interfaces. -/
  bounds : List String
  hasConstructor : Bool
  isReferenceType : Bool
  isValueType : Bool
  deriving DecidableEq, Repr

/-- A constructor, method or field. -/
structure MemberRecord where
  kind : MemberKind
  name : String
  visibility : Accessibility
  isStatic : Bool
  isSealed : Bool
  isVirtual : Bool
  isOverride : Bool
  isAbstract : Bool
  /-- It hides another member. -/
  isNew : Bool
  isExtension : Bool
  isConst : Bool
  isReadonly : Bool
  /-- The return type of a method, the type of a field. -/
  returnType : Option String
  parameters : List ParameterRecord
  constraints : List ConstraintRecord
  /-- The interface that it implements explicitly. -/
  explicitInterface : Option String
  /-- The interface that it implements as a public member. -/
  implementedInterface : Option String
  deriving DecidableEq, Repr

/-- A record with a name and nothing else. -/
def MemberRecord.plain (kind : MemberKind) (name : String) (visibility : Accessibility) :
    MemberRecord where
  kind := kind
  name := name
  visibility := visibility
  isStatic := false
  isSealed := false
  isVirtual := false
  isOverride := false
  isAbstract := false
  isNew := false
  isExtension := false
  isConst := false
  isReadonly := false
  returnType := none
  parameters := []
  constraints := []
  explicitInterface := none
  implementedInterface := none

/-- A type with its members. -/
structure TypeRecord where
  name : String
  kind : TypeKind
  visibility : Accessibility
  isStatic : Bool
  isAbstract : Bool
  isSealed : Bool
  baseType : Option String
  interfaces : List String
  constraints : List ConstraintRecord
  members : List MemberRecord
  deriving DecidableEq, Repr

/-- The baseline of a module. -/
structure Document where
  identity : String
  types : List TypeRecord
  deriving DecidableEq, Repr

def Document.empty : Document := ⟨"", []⟩

end ApiBaseline
