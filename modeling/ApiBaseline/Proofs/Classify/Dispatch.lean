import ApiBaseline.Proofs.Classify.Idle
import ApiBaseline.Proofs.Classify.Outline

/-!
# Records under the same dispatch

Two modules with the same supertypes whose levels fill and offer the same slots
agree on dispatch maps, on what methods override and on the interfaces that they
implement. That is all a member's record takes from other definitions, but for
the methods visible by name; so the record is the same when these are.
-/

namespace ApiBaseline

/-- The slots of a type's interfaces are as they were. -/
def Module.SlotsStay (m : Module) (f : Definition → Definition) (d : Definition) : Prop :=
  ∀ i ∈ m.allInterfaces d, ∀ known, m.resolve i = some known →
    knownSlots i (f known) = knownSlots i known

namespace Definition.KeepsOutline

variable {f : Definition → Definition} {d : Definition} (h : d.KeepsOutline f)

include h

theorem ownSignature : (f d).ownSignature = d.ownSignature := by
  funext x
  rw [Definition.ownSignature, h.paramNames, h.ownArgs, Definition.ownSignature]

theorem hides : (f d).hides = d.hides := by
  funext visible x
  rw [Definition.hides, h.ownSignature, Definition.hides]

end Definition.KeepsOutline

namespace SameSupertypes

variable {f : Definition → Definition} {m m' : Module} (h : SameSupertypes f m m')
  {d : Definition} (hd : d.KeepsOutline f)

include h hd

/-! ## Overriding -/

omit hd in
theorem offersBeyond (d : Definition) : (f d).offersBeyond = d.offersBeyond := by
  funext x
  rw [Definition.offersBeyond, h.isInterface, h.name, h.derives, Definition.offersBeyond]

/-- Where levels above offer the same slots, the same methods override. -/
theorem isOverride_of_offersSlot {x : Method}
    (hslots : ∀ l ∈ (m.hierarchy d).drop 1, (l.withDefinition f).offersSlot x (d.ownSignature x)
      = l.offersSlot x (d.ownSignature x)) :
    m'.isOverride (f d) x = m.isOverride d x := by
  have hlast : ∀ l : Level, (l.withDefinition f).definition.offersBeyond x
      = l.definition.offersBeyond x := fun l => congrFun (h.offersBeyond l.definition) x
  rw [Module.isOverride, Module.hasBaseSlot, h.hierarchy hd, hd.ownSignature, ← List.map_drop,
    List.any_map, List.getLast?_map, Option.any_map]
  simp only [Function.comp_def, any_congr_of_mem hslots, hlast, Module.isOverride,
    Module.hasBaseSlot]

section

variable (hlevels : ∀ l ∈ m.hierarchy d, l.GainsIdle f)

include hlevels

/-- Methods override the same inherited methods, or none. -/
theorem isOverride : m'.isOverride (f d) = m.isOverride d := by
  funext x
  refine h.isOverride_of_offersSlot hd fun l hl => ?_
  rw [(hlevels l (List.mem_of_mem_drop hl)).offersSlot]

/-! ## Dispatch maps -/

theorem fillSlot (i : TypeRef) (slot : InterfaceSlot) :
    m'.fillSlot (f d) i slot = m.fillSlot d i slot := by
  rw [Module.fillSlot, h.hierarchy hd, List.findSome?_map, Module.fillSlot]
  refine findSome?_congr_of_mem fun l hl => ?_
  rw [Function.comp_apply, (hlevels l hl).filler?, h.declares hd hl, h.handle]

omit h hd in
theorem namedSlots (i : TypeRef) :
    Module.namedSlots ((m.hierarchy d).map (·.withDefinition f)) i
      = Module.namedSlots (m.hierarchy d) i := by
  rw [Level.namedSlots_eq, Level.namedSlots_eq, List.flatMap_map, List.map_flatMap,
    List.map_flatMap, List.flatMap_congr fun l hl => (hlevels l hl).rowsFor i]

/-- A dispatch map stays as it is when the slots do. -/
theorem dispatch {i : TypeRef} (hstays : ∀ known, m.resolve i = some known →
      Module.knownSlots i (f known) = Module.knownSlots i known) :
    m'.dispatch (f d) i = m.dispatch d i := by
  have hslots : m'.slots (f d) i = m.slots d i := by
    rw [Module.slots, h.resolve, h.hierarchy hd, namedSlots hlevels, Module.slots]
    cases hknown : m.resolve i with
    | none => rfl
    | some known => exact hstays known hknown
  rw [Module.dispatch, h.isInterface, hslots, Module.dispatch]
  simp only [h.fillSlot hd hlevels]

variable (hstays : m.SlotsStay f d)

include hstays

/-- The same methods of a type implement interfaces. -/
theorem interfaceTable : m'.interfaceTable (f d) = m.interfaceTable d := by
  have hdeclared : ∀ handle : MethodHandle,
      handle.isDeclaredBy (f d) = handle.isDeclaredBy d := by
    intro handle
    rw [MethodHandle.isDeclaredBy, h.name, h.arity, MethodHandle.isDeclaredBy]
  rw [Module.interfaceTable, h.allInterfaces hd, Module.interfaceTable]
  refine List.flatMap_congr fun i hi => ?_
  simp only [h.dispatch hd hlevels (hstays i hi), hdeclared]

end

/-! ## Visible methods -/

/-- Levels with the same methods in closed form have the same visible methods. -/
theorem visibleMethods (hlevels : ∀ l ∈ m.hierarchy d,
      (l.withDefinition f).closed.definition.methods = l.closed.definition.methods) :
    m'.visibleMethods (f d) = m.visibleMethods d := by
  have hinherited : (m'.inheritedMethods (f d)).map (·.untyped)
      = (m.inheritedMethods d).map (·.untyped) := by
    rw [Module.inheritedMethods, h.hierarchy hd, List.zipIdx_map, List.flatMap_map,
      List.map_flatMap, Module.inheritedMethods, List.map_flatMap]
    refine List.flatMap_congr fun p hp => ?_
    have hmethods := hlevels p.1 (List.fst_mem_of_mem_zipIdx hp)
    calc ((p.1.withDefinition f).inheritedMethods p.2).map (·.untyped)
      _ = ((p.1.withDefinition f).closed.inheritedMethods p.2).map (·.untyped) :=
          ((p.1.withDefinition f).inheritedMethods_closed p.2).symm
      _ = (p.1.closed.inheritedMethods p.2).map (·.untyped) := by
          rw [Level.inheritedMethods, hmethods]
          rfl
      _ = (p.1.inheritedMethods p.2).map (·.untyped) := p.1.inheritedMethods_closed p.2
  rw [Module.visibleMethods, ← visibleFrom_untyped, hinherited, visibleFrom_untyped,
    Module.visibleMethods]

/-! ## Records -/

omit hd in
theorem parameters (d : Definition) :
    (m'.memberContext (f d)).parameters = (m.memberContext d).parameters := by
  funext x
  rw [MemberContext.parameters, MemberContext.parameters]
  simp only [Module.memberContext, h.parameterRecord, h.name]

omit hd in
theorem constructor (d : Definition) :
    (m'.memberContext (f d)).constructor = (m.memberContext d).constructor := by
  funext x
  rw [MemberContext.constructor, MemberContext.constructor, h.parameters]
  simp only [Module.memberContext, Definition.simpleName, h.name]

variable (hlevels : ∀ l ∈ m.hierarchy d, l.GainsIdle f) (hstays : m.SlotsStay f d)

include hlevels hstays

/-- A method that hides as before has the same record. -/
theorem method (position : Nat) {x : Method}
    (hhides : (f d).hides (m'.visibleMethods (f d)) x = d.hides (m.visibleMethods d) x) :
    (m'.memberContext (f d)).method position x = (m.memberContext d).method position x := by
  rw [MemberContext.method, MemberContext.method, h.parameters]
  simp only [Module.memberContext, h.interfaceTable hd hlevels hstays, h.isOverride hd hlevels,
    hhides, h.constraintRecords]
  rfl

/-- A member of a type has the same record, or none, if methods hide as
before. -/
theorem classify (position : Nat) {member : Member}
    (hhides : ∀ x, member = .method x →
      (f d).hides (m'.visibleMethods (f d)) x = d.hides (m.visibleMethods d) x) :
    (m'.memberContext (f d)).classify position member
      = (m.memberContext d).classify position member := by
  cases member with
  | constructor x => simp only [MemberContext.classify, h.constructor]
  | method x =>
      have hmethod := h.method hd hlevels hstays position (hhides x rfl)
      simp only [MemberContext.classify, hmethod]
  | field x => rfl
  | property name => rfl
  | event name => rfl
  | nestedType name => rfl
  | unsupported => simp only [MemberContext.classify, Module.memberContext, h.name]

/-- A type whose own members and visible methods stay has the same record. -/
theorem classify_type (hmembers : (f d).members = d.members)
    (hvisible : m'.visibleMethods (f d) = m.visibleMethods d) :
    m'.classify (f d) = m.classify d := by
  have hmember : (m'.memberContext (f d)).classify = (m.memberContext d).classify := by
    funext position member
    exact h.classify hd hlevels hstays position fun x _ => by rw [hvisible, hd.hides]
  have hmembers' : (m'.memberContext (f d)).definition.members
      = (m.memberContext d).definition.members := hmembers
  rw [Module.classify, MemberContext.classifyAll, hmember, hmembers', h.typeHead hd,
    Module.classify, MemberContext.classifyAll]

end SameSupertypes

end ApiBaseline
