import ApiBaseline.Classify.Visible

/-!
# Overriding

A virtual method that starts no slot of its own overrides an inherited one, if
there is any. Bases with definitions are searched by name, number of generic
parameters and types; generic parameters of the methods are matched by
position. Above the last known base an opaque base is taken to have the slot,
and otherwise the universal root offers its own few virtual methods.
-/

namespace ApiBaseline

/-- The virtual methods of the universal root: name and parameter types. -/
def rootVirtuals : List (String × List String) :=
  [("ToString", []), ("Equals", [TypeRef.objectName]), ("GetHashCode", []),
   ("Finalize", [])]

/-- The universal root has a virtual method with this name and these
parameter types. -/
def Method.overridesRoot (m : Method) : Bool :=
  rootVirtuals.any fun (name, types) =>
    name == m.name && m.genericParams.isEmpty
      && m.params.map (·.type) == types.map (.named · [])

/-- The level declares a slot that a method with this signature overrides. Its
own generic parameters stand for those of the inherited method. -/
def Level.offersSlot (l : Level) (method : Method) (own : Signature) : Bool :=
  l.definition.methods.any fun (_, m) =>
    m.name == method.name && m.isVirtual && !m.isStatic
      && m.genericParams.length == method.genericParams.length
      && ((l.signature m).substitute (genericNames m.genericParams)
            (genericRefs method.genericParams)).sameTypes own

/-- What lies above the last level of a hierarchy offers the slot. -/
def Definition.offersBeyond (last : Definition) (method : Method) : Bool :=
  if last.isInterface || last.name == TypeRef.objectName then false
  else if last.base.any (!·.isRoot) then true
  else method.overridesRoot

namespace Module

/-- A base of the type has a slot that the method overrides. -/
def hasBaseSlot (m : Module) (d : Definition) (method : Method) : Bool :=
  let levels := m.hierarchy d
  (levels.drop 1).any (·.offersSlot method (d.ownSignature method))
    || levels.getLast?.any (·.definition.offersBeyond method)

/-- The method overrides an inherited one. -/
def isOverride (m : Module) (d : Definition) (method : Method) : Bool :=
  method.isVirtual && !method.isNewSlot && m.hasBaseSlot d method

end Module

end ApiBaseline
