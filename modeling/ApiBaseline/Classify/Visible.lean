import ApiBaseline.Metadata.Hierarchy

/-!
# Methods visible by name

Looking a name up on a type finds the public methods of the type and the
public instance methods of its known bases, except inherited virtual methods
that a level further down overrides. A method that neither overrides nor can
be overridden hides another one when two visible methods share its name and
its signature.
-/

namespace ApiBaseline

/-- A method of a hierarchy in the terms of the bottom type. -/
structure InheritedMethod where
  /-- How far up it is declared. -/
  depth : Nat
  method : Method
  signature : Signature
  deriving DecidableEq, Repr

/-- The methods of a level at a depth. Static methods are not inherited. -/
def Level.inheritedMethods (depth : Nat) (l : Level) : List InheritedMethod :=
  (l.definition.methods.filter fun (_, m) => depth == 0 || !m.isStatic).map fun (_, m) =>
    ⟨depth, m, l.signature m⟩

/-- The methods of a hierarchy, from the bottom up. -/
def Module.inheritedMethods (m : Module) (d : Definition) : List InheritedMethod :=
  (m.hierarchy d).zipIdx.flatMap fun (l, depth) => l.inheritedMethods depth

abbrev SignatureList := List (String × Signature)

/-- The visible methods among those that follow, when `overridden` lists the
slots that have been overridden further down. -/
def visibleFrom (overridden : SignatureList) : List InheritedMethod → SignatureList
  | [] => []
  | i :: rest =>
    let entry := (i.method.name, i.signature)
    let replaced := i.method.isVirtual && overridden.contains entry
    let overridden' :=
      if i.method.isVirtual && !i.method.isNewSlot then entry :: overridden
      else overridden
    if i.method.access == .public && !replaced then entry :: visibleFrom overridden' rest
    else visibleFrom overridden' rest

def Module.visibleMethods (m : Module) (d : Definition) : SignatureList :=
  visibleFrom [] (m.inheritedMethods d)

/-- How many entries have a name and a signature. -/
def SignatureList.occurrences (methods : SignatureList) (name : String) (s : Signature) :
    Nat :=
  methods.countP (· == (name, s))

/-- The signature of a type's own method in its own terms. -/
def Definition.ownSignature (d : Definition) (m : Method) : Signature :=
  m.signature d.paramNames d.ownArgs

/-- A method that hides by signature, is neither virtual nor abstract, and
shares name and signature with another visible method. -/
def Definition.hides (d : Definition) (visible : SignatureList) (m : Method) : Bool :=
  !m.isAbstract && !m.isVirtual && m.hideBySig
    && 1 < visible.occurrences m.name (d.ownSignature m)

end ApiBaseline
