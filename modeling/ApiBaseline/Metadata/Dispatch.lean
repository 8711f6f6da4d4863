import ApiBaseline.Metadata.Closure

/-!
# Dispatch of interface methods

The dispatch map of an interface on a type says which method fills each slot
of the interface. Levels of the hierarchy are searched from the type up. On
each level a row that names the slot wins; otherwise a public virtual method
with the slot's name and types fills it, if the level declares the interface
or the method overrides an inherited one.

The slots of an interface without a definition are those that explicit rows
name; nothing is known of their types, so only rows can fill them.
-/

namespace ApiBaseline

/-- A declared member: its type, by name and arity, and its position there. -/
structure MethodHandle where
  typeName : String
  arity : Nat
  position : Nat
  deriving DecidableEq, Repr

/-- The member is declared by the type itself. -/
def MethodHandle.isDeclaredBy (h : MethodHandle) (d : Definition) : Bool :=
  h.typeName == d.name && h.arity == d.arity

/-- A slot of an interface. The types are known if the interface is. -/
structure InterfaceSlot where
  name : String
  signature : Option Signature
  deriving DecidableEq, Repr

/-- A slot that a method fills. -/
structure FilledSlot where
  name : String
  target : MethodHandle
  deriving DecidableEq, Repr

/-- The filled slots of an interface, in the order of its declaration. -/
structure DispatchMap where
  interface : TypeRef
  slots : List FilledSlot
  deriving DecidableEq, Repr

namespace Level

/-- The method has a row for a slot of the interface. -/
def fillsExplicitly (l : Level) (i : TypeRef) (slot : String) (m : Method) : Bool :=
  m.overrides.any fun row => row.method == slot && l.close row.interface == i

/-- The method can fill a slot by its name and types. -/
def fillsImplicitly (l : Level) (declares : Bool) (slot : InterfaceSlot) (m : Method) :
    Bool :=
  match slot.signature with
  | none => false
  | some s =>
    m.name == slot.name && m.access == .public && m.isVirtual && !m.isStatic
      && (declares || !m.isNewSlot) && (l.signature m).sameTypes s

/-- The position of the level's method that fills a slot. -/
def filler? (l : Level) (declares : Bool) (i : TypeRef) (slot : InterfaceSlot) :
    Option Nat :=
  let methods := l.definition.methods
  match methods.find? (fun (_, m) => l.fillsExplicitly i slot.name m) with
  | some (position, _) => some position
  | none =>
    (methods.find? fun (_, m) => l.fillsImplicitly declares slot m).map (·.1)

def handle (l : Level) (position : Nat) : MethodHandle :=
  ⟨l.definition.name, l.definition.arity, position⟩

end Level

namespace Module

/-- The level declares the interface, directly or through another one. -/
def declares (m : Module) (l : Level) (i : TypeRef) : Bool :=
  (declared l).any fun j => (m.closure j).contains i

/-- The slots of an interface with a definition: its instance methods. -/
def knownSlots (i : TypeRef) (d : Definition) : List InterfaceSlot :=
  (d.methods.filter (!·.2.isStatic)).map fun (_, m) =>
    ⟨m.name, some (m.signature d.paramNames i.args)⟩

/-- The slots of an interface that rows in a hierarchy name. -/
def namedSlots (levels : List Level) (i : TypeRef) : List InterfaceSlot :=
  let rows := levels.flatMap fun l => l.definition.methods.flatMap fun (_, m) =>
    m.overrides.filter fun row => l.close row.interface == i
  ((rows.map (·.method)).eraseDups).map (⟨·, none⟩)

def slots (m : Module) (d : Definition) (i : TypeRef) : List InterfaceSlot :=
  match m.resolve i with
  | some known => knownSlots i known
  | none => namedSlots (m.hierarchy d) i

/-- The method that fills a slot, from the type up. -/
def fillSlot (m : Module) (d : Definition) (i : TypeRef) (slot : InterfaceSlot) :
    Option MethodHandle :=
  (m.hierarchy d).findSome? fun l =>
    (l.filler? (m.declares l i) i slot).map l.handle

/-- The dispatch map of an interface on a type. An interface dispatches
nothing. -/
def dispatch (m : Module) (d : Definition) (i : TypeRef) : DispatchMap where
  interface := i
  slots :=
    if d.isInterface then []
    else (m.slots d i).filterMap fun slot =>
      (m.fillSlot d i slot).map (⟨slot.name, ·⟩)

end Module

end ApiBaseline
