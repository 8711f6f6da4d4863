import ApiBaseline.Proofs.Metadata.Lookup
import ApiBaseline.Proofs.TypeRef.Substitution
import Mathlib.Data.List.Basic

/-!
# References in definitions

A definition refers to types in its base, its interfaces, the constraints of its
generic parameters and its members. `types` lists these references and
`mapTypes` replaces each of them. The names that occur in a definition are those
of the generic parameters that it declares, itself or in a method, and of those
that its references mention.
-/

namespace ApiBaseline

/-! ## Replacing references -/

def Parameter.mapTypes (φ : TypeRef → TypeRef) (p : Parameter) : Parameter :=
  { p with type := φ p.type }

def GenericParam.mapTypes (φ : TypeRef → TypeRef) (p : GenericParam) : GenericParam :=
  { p with baseType := p.baseType.map φ, interfaces := p.interfaces.map φ }

def SlotRow.mapTypes (φ : TypeRef → TypeRef) (r : SlotRow) : SlotRow :=
  { r with interface := φ r.interface }

def Method.mapTypes (φ : TypeRef → TypeRef) (x : Method) : Method :=
  { x with
    returnType := φ x.returnType
    params := x.params.map (·.mapTypes φ)
    genericParams := x.genericParams.map (·.mapTypes φ)
    overrides := x.overrides.map (·.mapTypes φ) }

def Member.mapTypes (φ : TypeRef → TypeRef) : Member → Member
  | .constructor x => .constructor (x.mapTypes φ)
  | .method x => .method (x.mapTypes φ)
  | .field x => .field { x with type := φ x.type }
  | .property name => .property name
  | .event name => .event name
  | .nestedType name => .nestedType name
  | .unsupported => .unsupported

/-! ## Listing references -/

def GenericParam.types (p : GenericParam) : List TypeRef := p.baseType.toList ++ p.interfaces

def Method.types (x : Method) : List TypeRef :=
  x.returnType :: x.params.map (·.type) ++ x.genericParams.flatMap (·.types)
    ++ x.overrides.map (·.interface)

def Member.types : Member → List TypeRef
  | .constructor x | .method x => x.types
  | .field x => [x.type]
  | .property _ | .event _ | .nestedType _ | .unsupported => []

def Definition.types (d : Definition) : List TypeRef :=
  d.base.toList ++ d.interfaces ++ d.genericParams.flatMap (·.types) ++ d.members.flatMap (·.types)

theorem GenericParam.forall_types {p : GenericParam} {P : TypeRef → Prop} :
    (∀ t ∈ p.types, P t) ↔ (∀ t ∈ p.baseType, P t) ∧ ∀ t ∈ p.interfaces, P t := by
  simp only [types, List.forall_mem_append, Option.mem_toList, Option.mem_def]

theorem Method.forall_types {x : Method} {P : TypeRef → Prop} :
    (∀ t ∈ x.types, P t) ↔ P x.returnType ∧ (∀ p ∈ x.params, P p.type)
      ∧ (∀ p ∈ x.genericParams, ∀ t ∈ p.types, P t) ∧ ∀ r ∈ x.overrides, P r.interface := by
  simp only [types, List.cons_append, List.forall_mem_cons, List.forall_mem_append,
    List.forall_mem_map, List.forall_mem_flatMap, and_assoc]

theorem Definition.forall_types {d : Definition} {P : TypeRef → Prop} :
    (∀ t ∈ d.types, P t) ↔ (∀ t ∈ d.base, P t) ∧ (∀ t ∈ d.interfaces, P t)
      ∧ (∀ p ∈ d.genericParams, ∀ t ∈ p.types, P t) ∧ ∀ x ∈ d.members, ∀ t ∈ x.types, P t := by
  simp only [types, List.forall_mem_append, List.forall_mem_flatMap, Option.mem_toList,
    Option.mem_def, and_assoc]

/-! ## Names -/

def Member.paramNames : Member → List String
  | .constructor x | .method x => genericNames x.genericParams
  | .field _ | .property _ | .event _ | .nestedType _ | .unsupported => []

/-- The names of generic parameters that occur in the definition. -/
def Definition.names (d : Definition) : List String :=
  d.paramNames ++ d.members.flatMap (·.paramNames) ++ d.types.flatMap (·.mentions)

/-- The names of generic parameters that occur in the manifest. -/
def Manifest.names (M : Manifest) : List String := M.definitions.flatMap (·.names)

section

variable {M : Manifest} {d : Definition} (hd : d ∈ M.definitions)

include hd

theorem Definition.paramNames_subset : d.paramNames ⊆ M.names := fun _ hn =>
  List.mem_flatMap.mpr ⟨d, hd, List.mem_append_left _ (List.mem_append_left _ hn)⟩

theorem Definition.mentions_subset {t : TypeRef} (ht : t ∈ d.types) :
    t.mentions ⊆ M.names := fun _ hn =>
  List.mem_flatMap.mpr ⟨d, hd, List.mem_append_right _ (List.mem_flatMap.mpr ⟨t, ht, hn⟩)⟩

end

/-! ## Laws -/

section

variable {φ ψ : TypeRef → TypeRef}

theorem GenericParam.mapTypes_congr {p : GenericParam} (h : ∀ t ∈ p.types, φ t = ψ t) :
    p.mapTypes φ = p.mapTypes ψ := by
  obtain ⟨hbase, hinterfaces⟩ := forall_types.mp h
  rw [mapTypes, mapTypes, Option.map_congr hbase, List.map_congr_left hinterfaces]

namespace Method

variable {x : Method}

theorem mapTypes_congr (h : ∀ t ∈ x.types, φ t = ψ t) : x.mapTypes φ = x.mapTypes ψ := by
  obtain ⟨hreturn, hparams, hgenerics, hrows⟩ := forall_types.mp h
  have hparams' : x.params.map (·.mapTypes φ) = x.params.map (·.mapTypes ψ) :=
    List.map_congr_left fun p hp => by rw [Parameter.mapTypes, hparams p hp, Parameter.mapTypes]
  have hgenerics' : x.genericParams.map (·.mapTypes φ) = x.genericParams.map (·.mapTypes ψ) :=
    List.map_congr_left fun p hp => GenericParam.mapTypes_congr (hgenerics p hp)
  have hrows' : x.overrides.map (·.mapTypes φ) = x.overrides.map (·.mapTypes ψ) :=
    List.map_congr_left fun r hr => by rw [SlotRow.mapTypes, hrows r hr, SlotRow.mapTypes]
  rw [mapTypes, mapTypes, hreturn, hparams', hgenerics', hrows']

theorem mapTypes_mapTypes (φ ψ : TypeRef → TypeRef) (x : Method) :
    (x.mapTypes φ).mapTypes ψ = x.mapTypes fun t => ψ (φ t) := by
  simp [mapTypes, Parameter.mapTypes, GenericParam.mapTypes, SlotRow.mapTypes, Function.comp_def]

theorem genericNames_mapTypes (φ : TypeRef → TypeRef) (x : Method) :
    genericNames (x.mapTypes φ).genericParams = genericNames x.genericParams := by
  simp [mapTypes, genericNames, GenericParam.mapTypes, Function.comp_def]

theorem length_genericParams_mapTypes (φ : TypeRef → TypeRef) (x : Method) :
    (x.mapTypes φ).genericParams.length = x.genericParams.length := by
  rw [mapTypes, List.length_map]

end Method

theorem Member.method?_mapTypes (φ : TypeRef → TypeRef) (x : Member) :
    (x.mapTypes φ).method? = x.method?.map (·.mapTypes φ) := by
  cases x <;> rfl

theorem Definition.mem_methods {d : Definition} {i : Nat} {x : Method} :
    (i, x) ∈ d.methods ↔ d.members[i]? = some (.method x) := by
  rw [methods, List.mem_filterMap]
  constructor
  · rintro ⟨⟨member, j⟩, hmem, hmethod⟩
    obtain ⟨y, hy, hpair⟩ := Option.map_eq_some_iff.mp hmethod
    obtain ⟨rfl, rfl⟩ := Prod.mk.inj hpair
    cases member <;> cases hy
    exact List.mem_zipIdx_iff_getElem?.mp hmem
  · exact fun h => ⟨(.method x, i), List.mem_zipIdx_iff_getElem?.mpr h, rfl⟩

theorem Definition.mem_types_of_method {d : Definition} {p : Nat × Method}
    (hp : p ∈ d.methods) {t : TypeRef} (ht : t ∈ p.2.types) : t ∈ d.types := by
  have hmember : Member.method p.2 ∈ d.members :=
    List.mem_of_getElem? (mem_methods.mp hp)
  exact List.mem_append_right _ (List.mem_flatMap.mpr ⟨_, hmember, ht⟩)

/-- Methods stay at their positions when references are replaced in members. -/
theorem Definition.methods_mapTypes {d d' : Definition}
    (h : d'.members = d.members.map (·.mapTypes φ)) :
    d'.methods = d.methods.map fun p => (p.1, p.2.mapTypes φ) := by
  rw [methods, methods, h, List.zipIdx_map, List.filterMap_map, List.map_filterMap]
  refine List.filterMap_congr fun p _ => ?_
  simp only [Function.comp_apply, Prod.map, Member.method?_mapTypes, Option.map_map, id]
  rfl

end

end ApiBaseline
