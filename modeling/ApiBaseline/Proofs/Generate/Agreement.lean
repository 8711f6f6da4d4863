import ApiBaseline.Proofs.Generate
import ApiBaseline.Proofs.Metadata.Agreement

/-!
# Records of modules that agree

A record is made of what its definition says and of what is found by the
references in it. So modules that agree on the names of a definition give it the
same record, or fail with the same error (`classify_type`).
-/

namespace ApiBaseline.AgreeOn

variable {S : Set String} {m m' : Module} (h : AgreeOn S m m')

include h

/-! ## Constraints and parameters -/

theorem introducedNames {declared : List TypeRef} (hdeclared : ∀ i ∈ declared, i.NamesIn S) :
    m'.introducedNames declared = m.introducedNames declared := by
  rw [Module.introducedNames, h.introduced hdeclared, Module.introducedNames]

theorem constraintRecords {params : List GenericParam}
    (hparams : ∀ p ∈ params, ∀ t ∈ p.types, t.NamesIn S) :
    m'.constraintRecords params = m.constraintRecords params := by
  have hrecords : params.map m'.constraintRecord = params.map m.constraintRecord := by
    refine List.map_congr_left fun p hp => ?_
    have hinterfaces : ∀ i ∈ p.interfaces, i.NamesIn S := fun i hi =>
      hparams p hp i (List.mem_append_right _ hi)
    rw [Module.constraintRecord, h.introducedNames hinterfaces, Module.constraintRecord]
  rw [Module.constraintRecords, hrecords, Module.constraintRecords]

theorem parameterRecord (member : String) {p : Parameter} (hp : p.type.NamesIn S) :
    m'.parameterRecord member p = m.parameterRecord member p := by
  have hliteral : m'.defaultLiteral member p = m.defaultLiteral member p := by
    unfold Module.defaultLiteral
    rw [h.isValueType p.type hp]
  rw [Module.parameterRecord, hliteral, Module.parameterRecord]

section

variable {d : Definition} (hd : d.NamesIn S)

include hd

theorem typeHead : m'.typeHead d = m.typeHead d := by
  have hinterfaces : ∀ i ∈ d.interfaces, i.NamesIn S := fun _ hi => hd.interfaces hi
  rw [Module.typeHead, h.introducedNames hinterfaces,
    h.constraintRecords fun _ hp => hd.genericParam hp, Module.typeHead]

/-! ## Overriding and dispatch -/

theorem isOverride : m'.isOverride d = m.isOverride d := by
  funext x
  rw [Module.isOverride, Module.hasBaseSlot, h.hierarchy hd, Module.isOverride,
    Module.hasBaseSlot]

theorem visibleMethods : m'.visibleMethods d = m.visibleMethods d := by
  rw [Module.visibleMethods, Module.inheritedMethods, h.hierarchy hd, Module.visibleMethods,
    Module.inheritedMethods]

theorem fillSlot : m'.fillSlot d = m.fillSlot d := by
  funext i slot
  rw [Module.fillSlot, h.hierarchy hd, Module.fillSlot]
  refine findSome?_congr_of_mem fun l hl => ?_
  rw [h.declares (h.namesIn_of_mem_hierarchy hd l hl)]

theorem dispatch {i : TypeRef} (hi : i.NamesIn S) : m'.dispatch d i = m.dispatch d i := by
  have hslots : m'.slots d i = m.slots d i := by
    rw [Module.slots, h.resolve i hi, h.hierarchy hd, Module.slots]
  rw [Module.dispatch, hslots, h.fillSlot hd, Module.dispatch]

/-- The same methods implement interfaces. -/
theorem interfaceTable : m'.interfaceTable d = m.interfaceTable d := by
  rw [Module.interfaceTable, h.allInterfaces hd, Module.interfaceTable]
  refine List.flatMap_congr fun i hi => ?_
  rw [h.dispatch hd (h.namesIn_of_mem_allInterfaces hd i hi)]

end

/-! ## Members -/

theorem parameters (d : Definition) {x : Method} (hx : ∀ t ∈ x.types, t.NamesIn S) :
    (m'.memberContext d).parameters x = (m.memberContext d).parameters x := by
  refine mapM_congr_of_mem fun p hp => h.parameterRecord _ (hx p.type ?_)
  simp only [Method.types, List.mem_cons, List.mem_append, List.mem_map]
  exact Or.inl (Or.inl (Or.inr ⟨p, hp, rfl⟩))

theorem constructor (d : Definition) {x : Method} (hx : ∀ t ∈ x.types, t.NamesIn S) :
    (m'.memberContext d).constructor x = (m.memberContext d).constructor x := by
  rw [MemberContext.constructor, h.parameters d hx, MemberContext.constructor]
  rfl

variable {d : Definition} (hd : d.NamesIn S)

include hd

theorem method (position : Nat) {x : Method} (hx : ∀ t ∈ x.types, t.NamesIn S) :
    (m'.memberContext d).method position x = (m.memberContext d).method position x := by
  have hgenerics : ∀ p ∈ x.genericParams, ∀ t ∈ p.types, t.NamesIn S := fun p hp t ht =>
    hx t (List.mem_append_left _ (List.mem_append_right _ (List.mem_flatMap.mpr ⟨p, hp, ht⟩)))
  rw [MemberContext.method, MemberContext.method, h.parameters d hx]
  simp only [Module.memberContext, h.interfaceTable hd, h.isOverride hd, h.visibleMethods hd,
    h.constraintRecords hgenerics]
  rfl

theorem classify (position : Nat) {member : Member} (hmember : ∀ t ∈ member.types, t.NamesIn S) :
    (m'.memberContext d).classify position member
      = (m.memberContext d).classify position member := by
  cases member with
  | constructor x => simp only [MemberContext.classify, h.constructor d hmember]
  | method x => simp only [MemberContext.classify, h.method hd position hmember]
  | field x => rfl
  | property name => rfl
  | event name => rfl
  | nestedType name => rfl
  | unsupported => rfl

/-- A definition has the same record in both modules, or the same first error. -/
theorem classify_type : m'.classify d = m.classify d := by
  have hmember : ∀ p ∈ d.members.zipIdx,
      (m'.memberContext d).classify p.2 p.1 = (m.memberContext d).classify p.2 p.1 :=
    fun p hp => h.classify hd p.2 (hd.member (List.fst_mem_of_mem_zipIdx hp))
  have hmembers : (m'.memberContext d).classifyAll = (m.memberContext d).classifyAll :=
    congrArg (fun records : Except ClassifyError (List (Option MemberRecord)) => do
      return (← records).filterMap id) (mapM_congr_of_mem hmember)
  rw [Module.classify, hmembers, h.typeHead hd, Module.classify]

end ApiBaseline.AgreeOn
