import ApiBaseline.Metadata.Dispatch

/-!
# Interfaces that methods implement

A method of a type implements an interface when the dispatch map of that
interface sends a slot to it. One that fills slots of several interfaces
counts for the first of them.
-/

namespace ApiBaseline

/-- For positions of members, the interface that they implement; of several
entries for a position the first counts. -/
abbrev InterfaceTable := List (Nat × TypeRef)

namespace Module

def interfaceTable (m : Module) (d : Definition) : InterfaceTable :=
  (m.allInterfaces d).flatMap fun i =>
    ((m.dispatch d i).slots.filter (·.target.isDeclaredBy d)).map fun slot =>
      (slot.target.position, i)

end Module

namespace InterfaceTable

/-- The interface that the member at a position implements in either way. -/
def implemented? (table : InterfaceTable) (position : Nat) : Option TypeRef :=
  table.lookup position

/-- The interface that a method implements explicitly: it is private and
cannot be overridden. -/
def explicit? (table : InterfaceTable) (position : Nat) (method : Method) :
    Option TypeRef :=
  if method.access == .private && method.isFinal then table.implemented? position
  else none

end InterfaceTable

end ApiBaseline
