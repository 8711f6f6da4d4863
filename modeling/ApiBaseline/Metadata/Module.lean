import ApiBaseline.Metadata.Definition
import Std.Data.TreeMap

/-!
# Manifests and modules

A manifest lists the definitions of a compiled module, the shapes of types
that the module refers to, and the names of value types without a shape. A
module is a manifest with an index of its definitions by name and arity. The
index holds the position of the first entry for each key, and entries of the
module itself come before references.
-/

namespace ApiBaseline

/-- The description of a compiled module. -/
structure Manifest where
  /-- The module's name, version, culture and key. -/
  identity : String
  /-- The definitions of the module, nested ones included. -/
  types : List Definition
  /-- The shapes of types that are defined elsewhere. -/
  references : List Definition
  /-- The names of value types that have no shape. -/
  valueTypes : List String
  deriving DecidableEq, Repr

def Manifest.empty : Manifest := ⟨"", [], [], []⟩

/-- Where an indexed definition stands in its manifest. -/
inductive Slot where
  /-- At a position among the module's own definitions. -/
  | defined (position : Nat)
  /-- At a position among the references. -/
  | referenced (position : Nat)
  deriving DecidableEq, Repr

/-- Keys are ordered by name, then by arity. -/
abbrev compareKeys : String × Nat → String × Nat → Ordering :=
  compareLex (compareOn (·.1)) (compareOn (·.2))

/-- An index of definitions by name and arity. -/
abbrev Index := Std.TreeMap (String × Nat) Slot compareKeys

namespace Index

/-- Adds an entry unless its key is taken. -/
def note (index : Index) (entry : Definition × Slot) : Index :=
  index.insertIfNew entry.1.key entry.2

/-- The definitions of a manifest in the order of precedence, with their
places. -/
def entries (m : Manifest) : List (Definition × Slot) :=
  m.types.zipIdx.map (fun (d, i) => (d, .defined i))
    ++ m.references.zipIdx.map (fun (d, i) => (d, .referenced i))

def ofManifest (m : Manifest) : Index :=
  (entries m).foldl note Std.TreeMap.empty

end Index

/-- A manifest that can be asked for its definitions. -/
structure Module where
  manifest : Manifest
  index : Index

namespace Module

def ofManifest (m : Manifest) : Module := ⟨m, Index.ofManifest m⟩

def lookup (m : Module) (name : String) (arity : Nat) : Option Definition :=
  match m.index[(name, arity)]? with
  | some (.defined i) => m.manifest.types[i]?
  | some (.referenced i) => m.manifest.references[i]?
  | none => none

/-- The definition that a reference points at; without one it is opaque. -/
def resolve (m : Module) (t : TypeRef) : Option Definition :=
  t.definitionName?.bind fun name => m.lookup name t.arity

/-- A type that a definition or its name shows to be a value type. -/
def hasValueTypeShape (m : Module) (t : TypeRef) : Bool :=
  t.isBuiltinValueType || (m.resolve t).any (·.isValueType)

/-- A value type: one by its shape, or one that the manifest lists by name. -/
def isValueType (m : Module) (t : TypeRef) : Bool :=
  m.hasValueTypeShape t || t.definitionName?.any m.manifest.valueTypes.contains

end Module

end ApiBaseline
