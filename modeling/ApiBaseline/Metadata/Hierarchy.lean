import ApiBaseline.Metadata.Module

/-!
# Hierarchies

The hierarchy of a type is the type itself, its base, the base of that, and so
on while the bases have definitions. Every level carries the arguments of its
generic parameters in the terms of the type at the bottom. A hierarchy never
holds a definition twice and has at most 64 levels, so bases that lead back to
themselves do no harm.
-/

namespace ApiBaseline

/-- One level of a hierarchy: a definition and the arguments of its generic
parameters in the terms of the type that the hierarchy starts at. -/
structure Level where
  definition : Definition
  args : List TypeRef
  deriving DecidableEq, Repr

namespace Level

/-- A reference of the level's definition in the terms of the bottom type. -/
def close (l : Level) (t : TypeRef) : TypeRef :=
  t.substitute l.definition.paramNames l.args

/-- The level's base type, in the terms of the bottom type. -/
def base? (l : Level) : Option TypeRef := l.definition.base.map l.close

/-- The signature of one of the level's methods, in the terms of the bottom
type. -/
def signature (l : Level) (m : Method) : Signature :=
  m.signature l.definition.paramNames l.args

end Level

/-- The greatest number of levels of a hierarchy. -/
def maxLevels : Nat := 64

namespace Module

/-- The level above a level, unless its definition has been seen. -/
def nextLevel? (m : Module) (seen : List (String × Nat)) (l : Level) : Option Level :=
  match l.base? with
  | none => none
  | some base =>
    match m.resolve base with
    | none => none
    | some d => if d.key ∈ seen then none else some ⟨d, base.args⟩

/-- A level and at most `more` levels above it. -/
def climb (m : Module) : (more : Nat) → List (String × Nat) → Level → List Level
  | 0, _, l => [l]
  | more + 1, seen, l =>
    match m.nextLevel? seen l with
    | none => [l]
    | some up => l :: m.climb more (up.definition.key :: seen) up

/-- The hierarchy of a type, from the type up. -/
def hierarchy (m : Module) (d : Definition) : List Level :=
  m.climb (maxLevels - 1) [d.key] ⟨d, d.ownArgs⟩

end Module

end ApiBaseline
