import ApiBaseline.Metadata.Dispatch
import ApiBaseline.Proofs.Metadata.Hierarchy
import ApiBaseline.Proofs.Metadata.Lookup
import Mathlib.Data.List.Basic

/-!
# Modules with the same supertypes

Whoever derives from a definition or implements it sees it through a reference,
as a level with the arguments of that reference. Two modules whose definitions
correspond and look the same from there (`SameSupertypes`) agree on everything
that is found by following references: closures of interfaces (`closure`), and
the hierarchy of a type, level by level (`hierarchy`). The type at the bottom is
seen from within, so of itself it may change the members only
(`Definition.KeepsOutline`). Where every definition changes members only
(`SameOutline`), both hold.
-/

namespace ApiBaseline

/-- The level of the corresponding definition. -/
def Level.withDefinition (f : Definition → Definition) (l : Level) : Level where
  definition := f l.definition
  args := l.args

/-- The level is what a reference points at. -/
def Module.PointsAt (m : Module) (l : Level) : Prop :=
  ∃ t, m.resolve t = some l.definition ∧ l.args = t.args

/-- Two modules that find corresponding definitions for every reference; `f`
takes a definition of the first to that of the second, which has the same base
and interfaces for whoever refers to it. -/
structure SameSupertypes (f : Definition → Definition) (m m' : Module) : Prop where
  name : ∀ d, (f d).name = d.name
  arity : ∀ d, (f d).arity = d.arity
  isInterface : ∀ d, (f d).isInterface = d.isInterface
  isValueType : ∀ d, (f d).isValueType = d.isValueType
  derives : ∀ d, (f d).base.any (!·.isRoot) = d.base.any (!·.isRoot)
  base? : ∀ l, m.PointsAt l → (l.withDefinition f).base? = l.base?
  declared : ∀ l, m.PointsAt l → Module.declared (l.withDefinition f) = Module.declared l
  resolve : ∀ t, m'.resolve t = (m.resolve t).map f
  valueTypes : m'.manifest.valueTypes = m.manifest.valueTypes

/-- The definition changes its members at most. -/
def Definition.KeepsOutline (f : Definition → Definition) (d : Definition) : Prop :=
  f d = { d with members := (f d).members }

/-- What relates `B` to its replacement, and every definition to itself, relates
every definition to what it becomes. -/
theorem Definition.forall_update {B B' : Definition} {P : Definition → Definition → Prop}
    (hself : P B B') (hrefl : ∀ d, P d d) (d : Definition) :
    P d (Function.update id B B' d) :=
  (Function.forall_update_iff id P).mpr ⟨hself, fun d _ => hrefl d⟩ d

/-- Every level but the first one is what a reference points at. -/
theorem Module.pointsAt_of_mem_climb {m : Module} {more : Nat} {seen : List (String × Nat)}
    {l up : Level} (h : up ∈ (m.climb more seen l).drop 1) : m.PointsAt up := by
  obtain ⟨below, -, seen', -, hnext⟩ := exists_below h
  obtain ⟨base, -, hres, -, hargs⟩ := nextLevel?_eq_some hnext
  exact ⟨base, hres, hargs⟩

theorem Module.PointsAt.length {M : Manifest} {l : Level} (h : (ofManifest M).PointsAt l) :
    l.args.length = l.definition.arity := by
  obtain ⟨t, hres, hargs⟩ := h
  rw [hargs]
  exact (resolve_eq_some hres).2.2

namespace Definition.KeepsOutline

variable {f : Definition → Definition} {d : Definition} (h : KeepsOutline f d)

include h

theorem paramNames : (f d).paramNames = d.paramNames := by
  rw [h]
  rfl

theorem ownArgs : (f d).ownArgs = d.ownArgs := by
  rw [h]
  rfl

theorem base? (args : List TypeRef) : (Level.mk (f d) args).base? = (Level.mk d args).base? := by
  rw [h]
  rfl

theorem declared (args : List TypeRef) :
    Module.declared ⟨f d, args⟩ = Module.declared ⟨d, args⟩ := by
  rw [h]
  rfl

end Definition.KeepsOutline

namespace SameSupertypes

variable {f : Definition → Definition} {m m' : Module} (h : SameSupertypes f m m')

include h

theorem key (d : Definition) : (f d).key = d.key := by
  rw [Definition.key, h.name, h.arity, Definition.key]

theorem isValueType_eq : m'.isValueType = m.isValueType := by
  funext t
  unfold Module.isValueType Module.hasValueTypeShape
  rw [h.resolve, h.valueTypes]
  cases m.resolve t with
  | none => rfl
  | some d => simp only [Option.map_some, Option.any_some, h.isValueType]

/-! ## Interfaces -/

theorem parents : m'.parents = m.parents := by
  funext i
  unfold Module.parents
  rw [h.resolve]
  cases hres : m.resolve i with
  | none => rfl
  | some d => exact h.declared ⟨d, i.args⟩ ⟨i, hres, rfl⟩

theorem expand : m'.expand = m.expand := by
  funext seen i
  rw [Module.expand, h.parents, Module.expand]

theorem closure : m'.closure = m.closure := by
  funext i
  rw [Module.closure, h.expand, Module.closure]

/-- Lists of interfaces are reduced in the same way. -/
theorem introduced : m'.introduced = m.introduced := by
  funext declared
  simp only [Module.introduced, Module.implies, h.closure]

/-! ## Levels -/

theorem handle (l : Level) : (l.withDefinition f).handle = l.handle := by
  funext position
  rw [Level.handle, Level.handle, Level.withDefinition, h.name, h.arity]

/-- The levels above corresponding levels correspond. -/
theorem nextLevel? (seen : List (String × Nat)) {l : Level}
    (hbase : (l.withDefinition f).base? = l.base?) :
    m'.nextLevel? seen (l.withDefinition f)
      = (m.nextLevel? seen l).map (·.withDefinition f) := by
  unfold Module.nextLevel?
  rw [hbase]
  cases l.base? with
  | none => rfl
  | some base =>
      simp only [h.resolve]
      cases m.resolve base with
      | none => rfl
      | some d =>
          simp only [Option.map_some, h.key]
          split <;> rfl

theorem climb (more : Nat) (seen : List (String × Nat)) {l : Level}
    (hbase : (l.withDefinition f).base? = l.base?) :
    m'.climb more seen (l.withDefinition f)
      = (m.climb more seen l).map (·.withDefinition f) := by
  induction more generalizing seen l with
  | zero => rfl
  | succ more ih =>
      rw [Module.climb, Module.climb, h.nextLevel? seen hbase]
      cases hnext : m.nextLevel? seen l with
      | none => rfl
      | some up =>
          obtain ⟨base, -, hres, -, hargs⟩ := Module.nextLevel?_eq_some hnext
          have hkey : (up.withDefinition f).definition.key = up.definition.key :=
            h.key up.definition
          simp only [Option.map_some, hkey, ih _ (h.base? up ⟨base, hres, hargs⟩), List.map_cons]

variable {d : Definition} (hd : d.KeepsOutline f)

include hd

/-- Corresponding types have corresponding hierarchies. -/
theorem hierarchy : m'.hierarchy (f d) = (m.hierarchy d).map (·.withDefinition f) := by
  rw [Module.hierarchy, h.key, hd.ownArgs]
  exact h.climb (maxLevels - 1) [d.key] (l := ⟨d, d.ownArgs⟩) (hd.base? d.ownArgs)

theorem declared_of_mem_hierarchy : ∀ l ∈ m.hierarchy d,
    Module.declared (l.withDefinition f) = Module.declared l := by
  rw [Module.hierarchy_eq_cons, List.forall_mem_cons]
  exact ⟨hd.declared d.ownArgs, fun l hl => h.declared l (Module.pointsAt_of_mem_climb hl)⟩

theorem allInterfaces : m'.allInterfaces (f d) = m.allInterfaces d := by
  have hdeclared : (m'.hierarchy (f d)).flatMap Module.declared
      = (m.hierarchy d).flatMap Module.declared := by
    rw [h.hierarchy hd, List.flatMap_map]
    exact List.flatMap_congr (h.declared_of_mem_hierarchy hd)
  rw [Module.allInterfaces, hdeclared, h.expand, Module.allInterfaces]

theorem declares {l : Level} (hl : l ∈ m.hierarchy d) :
    m'.declares (l.withDefinition f) = m.declares l := by
  funext i
  rw [Module.declares, h.declared_of_mem_hierarchy hd l hl, h.closure, Module.declares]

end SameSupertypes

/-! ## Modules that differ in members -/

/-- Two modules that find corresponding definitions for every reference; `f`
takes a definition of the first to that of the second and changes nothing but
members. -/
structure SameOutline (f : Definition → Definition) (m m' : Module) : Prop where
  outline : ∀ d, f d = { d with members := (f d).members }
  resolve : ∀ t, m'.resolve t = (m.resolve t).map f
  valueTypes : m'.manifest.valueTypes = m.manifest.valueTypes

namespace SameOutline

variable {f : Definition → Definition} {m m' : Module} (h : SameOutline f m m')

include h

theorem keepsOutline (d : Definition) : d.KeepsOutline f := h.outline d

theorem sameSupertypes : SameSupertypes f m m' where
  name d := by rw [h.outline]
  arity d := by rw [h.outline]; rfl
  isInterface d := by rw [h.outline]
  isValueType d := by rw [h.outline]
  derives d := by rw [h.outline]
  base? l _ := (h.keepsOutline l.definition).base? l.args
  declared l _ := (h.keepsOutline l.definition).declared l.args
  resolve := h.resolve
  valueTypes := h.valueTypes

end SameOutline

end ApiBaseline
