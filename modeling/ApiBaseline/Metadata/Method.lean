import ApiBaseline.Constant
import ApiBaseline.Metadata.Access
import ApiBaseline.TypeRef.Basic

/-!
# Generic parameters, parameters, methods

The parts of a definition that carry signatures. A signature is the return
type and the shapes of the parameters, without names and modifiers; slots are
matched by the types of a signature alone, hiding by all of it.
-/

namespace ApiBaseline

/-- A generic parameter of a type or method, with its constraints. -/
structure GenericParam where
  name : String
  /-- The class that an argument derives from. -/
  baseType : Option TypeRef
  /-- The interfaces that an argument implements. -/
  interfaces : List TypeRef
  /-- An argument has a constructor without parameters. -/
  defaultConstructor : Bool
  /-- An argument is a reference type. -/
  referenceType : Bool
  /-- An argument is a value type. -/
  valueType : Bool
  deriving DecidableEq, Repr

def GenericParam.unconstrained (name : String) : GenericParam :=
  ⟨name, none, [], false, false, false⟩

/-- The names that references use for the parameters of a list. -/
def genericNames (params : List GenericParam) : List String :=
  params.map (·.name)

def genericRefs (params : List GenericParam) : List TypeRef :=
  params.map fun p => .param p.name

/-- The attribute that marks a parameter as variadic. -/
def paramArrayAttribute : String := "System.ParamArrayAttribute"

/-- The attribute that marks a method as an extension method. -/
def extensionAttribute : String := "System.Runtime.CompilerServices.ExtensionAttribute"

/-- A parameter of a method or constructor. -/
structure Parameter where
  name : String
  /-- The declared type, by-ref for a parameter passed by reference. -/
  type : TypeRef
  isIn : Bool
  isOut : Bool
  isOptional : Bool
  /-- A default is attached; without a constant it is the null default. -/
  hasDefault : Bool
  default : Option Constant
  /-- The names of its attribute types. -/
  attributes : List String
  deriving DecidableEq, Repr

/-- A parameter that is passed by value and has no default. -/
def Parameter.plain (name : String) (type : TypeRef) : Parameter :=
  ⟨name, type, false, false, false, false, none, []⟩

/-- The parameter takes all further arguments. -/
def Parameter.isVariadic (p : Parameter) : Bool :=
  p.attributes.contains paramArrayAttribute

/-- A row that says which slot of an interface a method fills explicitly. -/
structure SlotRow where
  interface : TypeRef
  method : String
  deriving DecidableEq, Repr

/-- A method or constructor. -/
structure Method where
  /-- The declared name, not qualified. -/
  name : String
  access : MemberAccess
  isStatic : Bool
  /-- It cannot be overridden further. -/
  isFinal : Bool
  isVirtual : Bool
  /-- It starts a slot of its own instead of overriding an inherited one. -/
  isNewSlot : Bool
  isAbstract : Bool
  /-- It hides inherited methods by signature and not by name. -/
  hideBySig : Bool
  returnType : TypeRef
  params : List Parameter
  genericParams : List GenericParam
  attributes : List String
  /-- The interface slots that it fills explicitly. -/
  overrides : List SlotRow
  deriving DecidableEq, Repr

/-- A public method of the instances that takes and returns nothing and is not
virtual. -/
def Method.plain (name : String) : Method where
  name := name
  access := .public
  isStatic := false
  isFinal := false
  isVirtual := false
  isNewSlot := false
  isAbstract := false
  hideBySig := true
  returnType := .void
  params := []
  genericParams := []
  attributes := []
  overrides := []

/-- The method is called like a member of its first parameter. -/
def Method.isExtension (m : Method) : Bool :=
  m.attributes.contains extensionAttribute

/-! ## Signatures -/

/-- A parameter as a signature sees it. -/
structure ParamShape where
  type : TypeRef
  hasDefault : Bool
  isIn : Bool
  isOut : Bool
  isOptional : Bool
  deriving DecidableEq, Repr

/-- A return type and the shapes of the parameters in order. -/
structure Signature where
  returnType : TypeRef
  params : List ParamShape
  deriving DecidableEq, Repr

/-- The parameter's shape, in the terms of the type arguments. -/
def Parameter.shape (names : List String) (actuals : List TypeRef) (p : Parameter) :
    ParamShape where
  type := p.type.substitute names actuals
  hasDefault := p.hasDefault
  isIn := p.isIn
  isOut := p.isOut
  isOptional := p.isOptional

/-- The method's signature, the parameters with the given names replaced by
the type arguments. -/
def Method.signature (m : Method) (names : List String) (actuals : List TypeRef) :
    Signature where
  returnType := m.returnType.substitute names actuals
  params := m.params.map (·.shape names actuals)

namespace Signature

def paramTypes (s : Signature) : List TypeRef := s.params.map (·.type)

/-- The return types and the parameter types agree. -/
def sameTypes (s t : Signature) : Bool :=
  s.returnType == t.returnType && s.paramTypes == t.paramTypes

/-- The signature with further parameters replaced. -/
def substitute (names : List String) (actuals : List TypeRef) (s : Signature) :
    Signature where
  returnType := s.returnType.substitute names actuals
  params := s.params.map fun p => { p with type := p.type.substitute names actuals }

end Signature

end ApiBaseline
