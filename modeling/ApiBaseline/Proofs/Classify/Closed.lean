import ApiBaseline.Classify.Type
import ApiBaseline.Proofs.Metadata.References

/-!
# Levels in closed form

A level is looked at in the terms of the type at the bottom of its hierarchy:
interfaces in rows, signatures and bases are all closed over its arguments. So
nothing changes when the arguments are put in beforehand (`Level.closed`), and a
level without parameters is left whose references are read as they stand. Slots,
overriding and visibility are decided by the methods of that level.
-/

namespace ApiBaseline

/-- The level with its arguments put in for the parameters. -/
def Level.closed (l : Level) : Level where
  definition := { l.definition with
    genericParams := []
    members := l.definition.members.map (·.mapTypes l.close) }
  args := []

def Level.rowsFor (l : Level) (i : TypeRef) : List SlotRow :=
  l.definition.methods.flatMap fun p =>
    p.2.overrides.filter fun row => l.close row.interface == i

theorem Level.namedSlots_eq (levels : List Level) (i : TypeRef) :
    Module.namedSlots levels i
      = (((levels.flatMap (·.rowsFor i)).map (·.method)).eraseDups).map (⟨·, none⟩) := rfl

/-- A method of which visibility is told; the types are those of the signature. -/
def InheritedMethod.untyped (i : InheritedMethod) : InheritedMethod :=
  { i with method := i.method.mapTypes fun _ => .void }

theorem visibleFrom_untyped (methods : List InheritedMethod) (overridden : SignatureList) :
    visibleFrom overridden (methods.map (·.untyped)) = visibleFrom overridden methods := by
  induction methods generalizing overridden with
  | nil => rfl
  | cons i methods ih =>
      simp only [List.map_cons, visibleFrom, ih]
      rfl

namespace Level

variable (l : Level)

theorem close_closed : l.closed.close = id := by
  funext t
  exact TypeRef.substitute_own [] t

theorem methods_closed :
    l.closed.definition.methods
      = l.definition.methods.map fun p => (p.1, p.2.mapTypes l.close) :=
  Definition.methods_mapTypes rfl

theorem signature_closed (x : Method) :
    l.closed.signature (x.mapTypes l.close) = l.signature x := by
  have hclose : ∀ t, (l.close t).substitute [] [] = l.close t := fun t =>
    TypeRef.substitute_own [] (l.close t)
  simp only [signature, closed, Definition.paramNames, genericNames, List.map_nil,
    Method.signature, Method.mapTypes, List.map_map, Function.comp_def, Parameter.shape,
    Parameter.mapTypes, hclose]
  rfl

/-! ## Slots of interfaces -/

theorem fillsExplicitly_closed (i : TypeRef) (slot : String) (x : Method) :
    l.closed.fillsExplicitly i slot (x.mapTypes l.close) = l.fillsExplicitly i slot x := by
  simp only [fillsExplicitly, close_closed, id, Method.mapTypes, List.any_map,
    Function.comp_def, SlotRow.mapTypes]

theorem fillsImplicitly_closed (declares : Bool) (slot : InterfaceSlot) (x : Method) :
    l.closed.fillsImplicitly declares slot (x.mapTypes l.close)
      = l.fillsImplicitly declares slot x := by
  simp only [fillsImplicitly, signature_closed]
  rfl

theorem filler?_closed : l.closed.filler? = l.filler? := by
  funext declares i slot
  simp only [filler?, methods_closed, List.find?_map, Function.comp_def,
    fillsExplicitly_closed, fillsImplicitly_closed]
  cases l.definition.methods.find? _ with
  | none => simp [Function.comp_def]
  | some p => rfl

theorem rowsFor_closed (i : TypeRef) :
    l.closed.rowsFor i = (l.rowsFor i).map (·.mapTypes l.close) := by
  simp only [rowsFor, methods_closed, close_closed, id, List.flatMap_map, List.map_flatMap]
  refine List.flatMap_congr fun p _ => ?_
  simp only [Method.mapTypes, List.filter_map]
  rfl

theorem knownSlots_closed {i : TypeRef} (hargs : i.args = l.args) :
    Module.knownSlots i l.definition
      = (l.closed.definition.methods.filter (!·.2.isStatic)).map fun p =>
          ⟨p.2.name, some (l.closed.signature p.2)⟩ := by
  simp only [Module.knownSlots, hargs, methods_closed, List.filter_map, List.map_map,
    Function.comp_def, signature_closed]
  rfl

/-! ## Overriding and visibility -/

theorem offersSlot_closed : l.closed.offersSlot = l.offersSlot := by
  funext x own
  simp only [offersSlot, methods_closed, List.any_map, Function.comp_def, signature_closed,
    Method.genericNames_mapTypes, Method.length_genericParams_mapTypes]
  rfl

theorem inheritedMethods_closed (depth : Nat) :
    (l.closed.inheritedMethods depth).map (·.untyped)
      = (l.inheritedMethods depth).map (·.untyped) := by
  simp only [inheritedMethods, methods_closed, List.filter_map, List.map_map,
    Function.comp_def, signature_closed, InheritedMethod.untyped, Method.mapTypes_mapTypes]
  rfl

end Level

end ApiBaseline
