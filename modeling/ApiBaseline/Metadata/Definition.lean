import ApiBaseline.Metadata.Method
import ApiBaseline.TypeRef.Printer

/-!
# Type definitions

A definition declares a type: its name and access, its base and interfaces,
its generic parameters and its members in metadata order. The name is full:
the namespace in front, separated by dots, and enclosing types joined by a
plus sign. Definitions of one name may differ in arity.
-/

namespace ApiBaseline

/-- A field. -/
structure Field where
  name : String
  access : MemberAccess
  type : TypeRef
  isStatic : Bool
  /-- It is a constant of the program text. -/
  isLiteral : Bool
  /-- It is written by the constructor only. -/
  isInitOnly : Bool
  deriving DecidableEq, Repr

/-- A declared member. -/
inductive Member where
  | constructor (method : Method)
  /-- A method, accessors of properties and events included. -/
  | method (method : Method)
  | field (field : Field)
  /-- A property; its accessors are methods of their own. -/
  | property (name : String)
  /-- An event; its accessors are methods of their own. -/
  | event (name : String)
  /-- A nested type, which has a definition of its own. -/
  | nestedType (name : String)
  /-- A member of a kind that no record describes. -/
  | unsupported
  deriving DecidableEq, Repr

/-- The method of a member that is one; a constructor is none. -/
def Member.method? : Member → Option Method
  | method m => some m
  | _ => none

/-- What a type is. -/
inductive TypeKind where
  | «class»
  | struct
  | interface
  deriving DecidableEq, Repr, Inhabited

instance : Named TypeKind where
  all := [.class, .struct, .interface]
  name
    | .class => "class"
    | .struct => "struct"
    | .interface => "interface"

/-- The word for a kind in an identifier. -/
def TypeKind.keyword : TypeKind → String
  | .class => "class"
  | .struct => "struct"
  | .interface => "interface"

/-- The definition of a type. -/
structure Definition where
  /-- The full name, without generic arity. -/
  name : String
  access : TypeAccess
  isInterface : Bool
  isValueType : Bool
  isAbstract : Bool
  isSealed : Bool
  /-- The base type; interfaces and the roots have none. -/
  base : Option TypeRef
  /-- The declared interfaces. -/
  interfaces : List TypeRef
  genericParams : List GenericParam
  /-- The declared members, never inherited ones. -/
  members : List Member
  deriving DecidableEq, Repr

/-- A public class that declares methods only. -/
def openClass (name : String) (genericParams : List String) (base : Option TypeRef)
    (methods : List Method) : Definition where
  name := name
  access := .public
  isInterface := false
  isValueType := false
  isAbstract := false
  isSealed := false
  base := base
  interfaces := []
  genericParams := genericParams.map .unconstrained
  members := methods.map .method

/-- The part of a list before the last occurrence of an element and the part
behind it, if it occurs. -/
def splitLast? (c : Char) : List Char → Option (List Char × List Char)
  | [] => none
  | d :: ds =>
    match splitLast? c ds with
    | some (front, back) => some (d :: front, back)
    | none => if d = c then some ([], ds) else none

namespace Definition

/-- The name without namespace and enclosing types: what stands behind the
last plus sign, or else behind the last dot. -/
def simpleName (d : Definition) : String :=
  let name := d.name.toList
  match splitLast? '+' name with
  | some (_, nested) => String.ofList nested
  | none =>
    match splitLast? '.' name with
    | some (_, simple) => String.ofList simple
    | none => d.name

/-- The namespace: what stands before the last dot of the outermost type's
name. The global namespace is empty. -/
def namespaceName (d : Definition) : String :=
  match splitLast? '.' (d.name.toList.takeWhile (· ≠ '+')) with
  | some (front, _) => String.ofList front
  | none => ""

/-- The number of generic parameters. -/
def arity (d : Definition) : Nat := d.genericParams.length

def paramNames (d : Definition) : List String := genericNames d.genericParams

/-- The generic parameters as references. -/
def ownArgs (d : Definition) : List TypeRef := genericRefs d.genericParams

/-- What definitions are looked up by: the name and the arity. -/
def key (d : Definition) : String × Nat := (d.name, d.arity)

/-- The declared methods with their positions among the members. -/
def methods (d : Definition) : List (Nat × Method) :=
  d.members.zipIdx.filterMap fun (member, i) => member.method?.map (i, ·)

/-- An interface first, then a value type, then a class. -/
def kind (d : Definition) : TypeKind :=
  if d.isInterface then .interface
  else if d.isValueType then .struct
  else .class

end Definition

/-- The generic parameters behind a name: `<T, U>`, or nothing. -/
def genericSuffix (params : List GenericParam) : String :=
  angled (params.map (·.name))

/-- The canonical name: the full name with the generic parameters. -/
def Definition.canonicalName (d : Definition) : String :=
  d.name ++ genericSuffix d.genericParams

end ApiBaseline
