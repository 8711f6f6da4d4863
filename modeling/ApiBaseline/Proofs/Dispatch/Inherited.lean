import ApiBaseline.Proofs.Dispatch.MostDerived

/-!
# Fillers of a derived type

A type takes part in the search for a filler with one level, its own. Above it the
hierarchy of its base goes on, and where that base has no generic parameters it does
so unchanged. So a slot that the type's own methods leave open (`LeavesOpen`) is filled
as it is on the base (`fillSlot_inherited`). It does not matter what interfaces the type
declares again: that decides what its own methods can fill, and for the levels above
only their own declarations count.

The slots themselves are those of the interface, or else those that rows name; a type
without methods has no rows, so its whole dispatch map is that of its base
(`dispatch_inherited`).
-/

namespace ApiBaseline

/-- The type has no method of its own that fills the slot of the interface: none has a
row for it, and no public virtual instance method has its name. -/
structure Definition.LeavesOpen (d : Definition) (i : TypeRef) (slot : String) : Prop where
  noRow : ∀ p ∈ d.methods, ⟨i, slot⟩ ∉ p.2.overrides
  noMethod : ∀ p ∈ d.methods, p.2.name = slot → p.2.access = .public → p.2.isVirtual = true →
    p.2.isStatic = true

theorem Definition.leavesOpen_of_methods {d : Definition} (h : d.methods = []) (i : TypeRef)
    (slot : String) : d.LeavesOpen i slot := by
  constructor <;> simp [h]

namespace Module

section

variable {m : Module} {derived parent : Definition}
  (h : m.hierarchy derived = ⟨derived, derived.ownArgs⟩ :: m.hierarchy parent)

include h

/-- A slot that the type leaves open is filled as on the base. -/
theorem fillSlot_inherited {i : TypeRef} {slot : InterfaceSlot}
    (hopen : derived.LeavesOpen i slot.name) :
    m.fillSlot derived i slot = m.fillSlot parent i slot := by
  have hown : (Level.mk derived derived.ownArgs).filler?
      (m.declares ⟨derived, derived.ownArgs⟩ i) i slot = none := by
    refine Level.filler?_eq_none_iff.mpr fun p hp => ⟨fun hrow => ?_, ?_⟩
    · exact hopen.noRow p hp (hasRow_own.mp hrow)
    · rw [← Bool.not_eq_true, Level.fillsImplicitly_iff]
      rintro ⟨hname, hpublic, hvirtual, hinstance, -⟩
      have hstatic := hopen.noMethod p hp hname hpublic hvirtual
      exact absurd (hinstance.symm.trans hstatic) nofun
  rw [fillSlot, h, List.findSome?_cons, hown]
  rfl

/-- A type without methods names no slots. -/
theorem slots_inherited (hmethods : derived.methods = []) (i : TypeRef) :
    m.slots derived i = m.slots parent i := by
  unfold slots
  cases m.resolve i with
  | some known => rfl
  | none =>
      have hrows : (Level.mk derived derived.ownArgs).rowsFor i = [] := by
        simp [Level.rowsFor, hmethods]
      rw [h, Level.namedSlots_eq, List.flatMap_cons, hrows, List.nil_append,
        ← Level.namedSlots_eq]

end

/-- **A derived type inherits the fillers of its base.** For an interface with a
definition that is so for every slot which the type leaves open; a type without methods
has the dispatch maps of its base. -/
theorem dispatch_inherited {M : Manifest} {derived parent : Definition} {base : TypeRef}
    (hbase : derived.base = some base) (hparent : (ofManifest M).resolve base = some parent)
    (hclosed : parent.genericParams = []) (hderived : derived.isInterface = false)
    (hclass : parent.isInterface = false)
    (hnew : derived.key ∉ ((ofManifest M).hierarchy parent).map (·.definition.key))
    (hlevels : ((ofManifest M).hierarchy parent).length < maxLevels) :
    (∀ i known name, (ofManifest M).resolve i = some known → derived.LeavesOpen i name →
        (∀ slot ∈ knownSlots i known, slot.name = name →
          (ofManifest M).fillSlot derived i slot = (ofManifest M).fillSlot parent i slot)
        ∧ ((ofManifest M).dispatch derived i).slots.filter (·.name == name)
          = ((ofManifest M).dispatch parent i).slots.filter (·.name == name))
      ∧ (derived.methods = [] →
        ∀ i, (ofManifest M).dispatch derived i = (ofManifest M).dispatch parent i) := by
  have habove := hierarchy_of_closed_base hbase hparent hclosed hnew hlevels
  constructor
  · intro i known name hknown hopen
    have hfill : ∀ slot ∈ knownSlots i known, slot.name = name →
        (ofManifest M).fillSlot derived i slot = (ofManifest M).fillSlot parent i slot :=
      fun slot _ hname => fillSlot_inherited habove (hname ▸ hopen)
    refine ⟨hfill, ?_⟩
    simp only [dispatch, hderived, hclass, Bool.false_eq_true, if_false, slots, hknown,
      List.filter_filterMap]
    refine List.filterMap_congr fun slot hslot => ?_
    by_cases hname : slot.name = name
    · rw [hfill slot hslot hname]
    · -- Entries of other names are not looked at.
      have hother : ∀ target : Option MethodHandle,
          (target.map (FilledSlot.mk slot.name)).filter (·.name == name) = none := by
        intro target
        cases target <;> simp [hname, Option.filter_some]
      rw [hother, hother]
  · intro hmethods i
    have hfill : ∀ slot, (ofManifest M).fillSlot derived i slot
        = (ofManifest M).fillSlot parent i slot := fun slot =>
      fillSlot_inherited habove (derived.leavesOpen_of_methods hmethods i slot.name)
    simp only [dispatch, hderived, hclass, slots_inherited habove hmethods, hfill]

/-- The drawer leaves to the cabinet what it does not do itself, and the tray leaves it
everything, though it declares interfaces of its own. -/
theorem cabinet_fills_for_drawer :
    drawer.LeavesOpen forBooks "Put"
      ∧ (furniture.dispatch cabinet forBooks).slots.filter (·.name == "Put")
        = [⟨"Put", ⟨"Cabinet", 0, 0⟩⟩]
      ∧ furniture.dispatch tray forBooks = furniture.dispatch cabinet forBooks := by
  have hopen : drawer.LeavesOpen forBooks "Put" := ⟨by decide, by decide⟩
  have hcabinet : furniture.resolve (.named "Cabinet" []) = some cabinet := by decide
  have hdrawerBase : drawer.base = some (.named "Cabinet" []) := rfl
  have htrayBase : tray.base = some (.named "Cabinet" []) := rfl
  obtain ⟨hdrawer, -⟩ :=
    dispatch_inherited hdrawerBase hcabinet rfl rfl rfl (by decide) (by decide)
  obtain ⟨-, htray⟩ :=
    dispatch_inherited htrayBase hcabinet rfl rfl rfl (by decide) (by decide)
  have hput := (hdrawer forBooks slottedShelf "Put" (by decide) hopen).2
  refine ⟨hopen, hput.symm.trans ?_, htray rfl forBooks⟩
  exact congrArg (·.filter (·.name == "Put")) dispatch_drawer

end Module

end ApiBaseline
