import ApiBaseline.Metadata.Hierarchy

/-!
# Interfaces of a type

An interface extends the interfaces that its definition declares, with its own
arguments put in for the generic parameters. Following them yields the closure
of the interface. A type implements the closures of what the levels of its
hierarchy declare; a declared list is reduced to the interfaces that none of
the others implies.
-/

namespace ApiBaseline

section

variable (next : TypeRef → List TypeRef)

/-- Adds what can be reached from `t` to the list `seen`, depth first and in
the order of `next`; what has been seen is not entered again. There is a result
when the search comes to an end. -/
def reach? (seen : List TypeRef) (t : TypeRef) : Option (List TypeRef) :=
  -- `by apply` keeps the position of the call out of the term.
  if t ∈ seen then some seen else (next t).foldlM (by apply reach?) (seen ++ [t])
partial_fixpoint

end

namespace Module

/-- The interfaces that an interface extends directly; an opaque one extends
none that is known. -/
def parents (m : Module) (i : TypeRef) : List TypeRef :=
  match m.resolve i with
  | some d => d.interfaces.map (·.substitute d.paramNames i.args)
  | none => []

/-- Adds an interface and all that it extends to the interfaces seen. Only
finitely many can be added: with arguments that grow from step to step an
interface extends infinitely many others and has no list of them. -/
def expand (m : Module) (seen : List TypeRef) (i : TypeRef) : List TypeRef :=
  (reach? m.parents seen i).getD seen

/-- The interface and all that it extends. -/
def closure (m : Module) (i : TypeRef) : List TypeRef := m.expand [] i

/-- The interfaces that a level declares, in the terms of the bottom type. -/
def declared (l : Level) : List TypeRef := l.definition.interfaces.map l.close

/-- Every interface that a type implements, in the order of discovery. -/
def allInterfaces (m : Module) (d : Definition) : List TypeRef :=
  ((m.hierarchy d).flatMap declared).foldl m.expand []

/-- The interface is extended by another one. -/
def implies (m : Module) (other i : TypeRef) : Bool :=
  other != i && (m.closure other).contains i

/-- A declared list without the interfaces that another one of the list
extends, and without repetitions. -/
def introduced (m : Module) (declared : List TypeRef) : List TypeRef :=
  (declared.filter fun i => !declared.any (m.implies · i)).eraseDups

end Module

end ApiBaseline
