import ApiBaseline.Classify.Type
import ApiBaseline.Proofs.Metadata.Supertypes

/-!
# What records take from outlines

The head of a type's record, the constraints of generic parameters and the
records of parameters depend on the type's outline and on closures of interfaces
only. So modules with the same supertypes agree on them, whatever the members of
their definitions are.
-/

namespace ApiBaseline

namespace SameSupertypes

variable {f : Definition → Definition} {m m' : Module} (h : SameSupertypes f m m')

include h

theorem introducedNames : m'.introducedNames = m.introducedNames := by
  funext declared
  rw [Module.introducedNames, h.introduced, Module.introducedNames]

theorem constraintRecords : m'.constraintRecords = m.constraintRecords := by
  have hrecord : m'.constraintRecord = m.constraintRecord := by
    funext p
    rw [Module.constraintRecord, h.introducedNames, Module.constraintRecord]
  funext params
  rw [Module.constraintRecords, hrecord, Module.constraintRecords]

theorem parameterRecord : m'.parameterRecord = m.parameterRecord := by
  have hliteral : m'.defaultLiteral = m.defaultLiteral := by
    funext member p
    unfold Module.defaultLiteral
    rw [h.isValueType_eq]
  funext member p
  rw [Module.parameterRecord, hliteral, Module.parameterRecord]

/-- The records of corresponding types have the same head. -/
theorem typeHead {d : Definition} (hd : d.KeepsOutline f) :
    m'.typeHead (f d) = m.typeHead d := by
  have hhead : m'.typeHead (f d) = m'.typeHead d := by
    rw [hd]
    rfl
  rw [hhead, Module.typeHead, h.introducedNames, h.constraintRecords, Module.typeHead]

end SameSupertypes

end ApiBaseline
