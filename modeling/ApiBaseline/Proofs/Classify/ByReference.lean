import ApiBaseline.Proofs.Generate.Faults

/-!
# Defaults of parameters passed by reference

The record of a parameter names the type behind the by-ref mark and says how the
argument is passed by a direction. But the default is written as a literal of the
declared type, mark included: that is no value type, and no constant has a literal of it
(`canonicalName_byRef_not_mem`). So to pass a parameter by reference leaves its record
as it is but for the direction if there is no default, and where there is one, only if the
type itself reads it like that (`rendersAlike_byRef_iff`): a number by reference cannot
have the default that it has by value (`counter_loses_default`).
-/

namespace ApiBaseline

theorem TypeRef.withoutByRef_of_not_byRef {t : TypeRef} (h : t.isByRef = false) :
    t.withoutByRef = t := by
  cases t with
  | byRef target => cases h
  | named name args => rfl
  | param name => rfl
  | array element rank => rfl
  | pointer target => rfl

/-- No type that is passed by reference has literals. -/
theorem TypeRef.canonicalName_byRef_not_mem (t : TypeRef) :
    (byRef t).canonicalName ∉ literalTypes := by
  intro hmem
  have hmark : ((byRef t).canonicalName.toList).getLast? = some '&' := by
    rw [canonicalName, spell, String.toList_append]
    exact List.getLast?_concat
  have hplain : ∀ name ∈ literalTypes, name.toList.getLast? ≠ some '&' := by decide
  exact hplain _ hmem hmark

namespace Module

variable (m : Module) (member : String)

/-- Two parameters have the same record but for the direction, or neither has one. -/
def RendersAlike (p q : Parameter) : Prop :=
  ((∃ r, m.parameterRecord member p = .ok r) ↔ ∃ s, m.parameterRecord member q = .ok s)
    ∧ ∀ r s, m.parameterRecord member p = .ok r → m.parameterRecord member q = .ok s →
      r = { s with direction := p.direction }

theorem isValueType_byRef (t : TypeRef) : m.isValueType (.byRef t) = false := rfl

variable {m member}

theorem parameterRecord_eq_map (p : Parameter) : m.parameterRecord member p
    = (m.defaultLiteral member p).map fun literal =>
        ⟨p.name, p.type.withoutByRef.canonicalName, p.direction, literal, p.isVariadic⟩ := by
  rw [parameterRecord]
  cases m.defaultLiteral member p <;> rfl

section

variable {p : Parameter} {t : TypeRef} (hp : p.type = .byRef t)

include hp

/-- By reference the null default is the same for all types. -/
theorem defaultLiteral_byRef_null (hdefault : p.hasDefault = true) (hnull : p.default = none) :
    m.defaultLiteral member p = .ok (some "null") := by
  rw [defaultLiteral, hdefault, hnull, hp]
  simp [isValueType_byRef]

/-- By reference no constant can be a default. -/
theorem defaultLiteral_byRef_constant {c : Constant} (hdefault : p.hasDefault = true)
    (hc : p.default = some c) : m.defaultLiteral member p
      = .error (.unsupportedDefault member p.name p.type.canonicalName) := by
  have hliteral : c.literal? p.type.canonicalName = none :=
    (c.literal?_eq_none_iff _).mpr (hp ▸ TypeRef.canonicalName_byRef_not_mem t)
  simp only [defaultLiteral, hdefault, hc, hliteral]

variable (ht : t.isByRef = false)

include ht

/-- All but the literal is taken from behind the mark. -/
theorem rendersAlike_iff_literals : m.RendersAlike member p { p with type := t }
    ↔ ((∃ r, m.defaultLiteral member p = .ok r)
        ↔ ∃ s, m.defaultLiteral member { p with type := t } = .ok s)
      ∧ ∀ r s, m.defaultLiteral member p = .ok r →
        m.defaultLiteral member { p with type := t } = .ok s → r = s := by
  have hbehind : p.type.withoutByRef = t.withoutByRef := by
    rw [hp, TypeRef.withoutByRef_of_not_byRef ht]
    rfl
  rw [RendersAlike, parameterRecord_eq_map, parameterRecord_eq_map, hbehind]
  cases m.defaultLiteral member p <;> cases m.defaultLiteral member { p with type := t } <;>
    simp [Except.map, Parameter.isVariadic]

/-- **Records of parameters passed by reference.** A parameter passed by reference has the
record that it has by value, but for the direction, exactly if it has no default, or the
null default of a type that is no value type, or a constant that its type has no literal
for: then there is no record either way. -/
theorem rendersAlike_byRef_iff : m.RendersAlike member p { p with type := t }
    ↔ p.hasDefault = false
      ∨ (p.default = none ∧ m.isValueType t = false)
      ∨ (p.default ≠ none ∧ t.canonicalName ∉ literalTypes) := by
  rw [rendersAlike_iff_literals hp ht]
  cases hdefault : p.hasDefault with
  | false => simp [defaultLiteral, hdefault]
  | true =>
      cases hc : p.default with
      | none =>
          -- A null default of a value type begins with another letter.
          have hne : "null" ≠ "default(" ++ t.canonicalName ++ ")" := fun h => by
            have hhead := congrArg (fun s : String => s.toList.head?) h
            simp at hhead
          rw [defaultLiteral_byRef_null hp hdefault hc, defaultLiteral]
          cases m.isValueType t <;> simp [hne]
      | some c =>
          rw [defaultLiteral_byRef_constant hp hdefault hc, defaultLiteral]
          cases hliteral : c.literal? t.canonicalName with
          | none =>
              have hmem := (c.literal?_eq_none_iff _).mp hliteral
              simp [hliteral, hmem]
          | some literal =>
              have hmem : t.canonicalName ∈ literalTypes := by
                by_contra hnot
                rw [(c.literal?_eq_none_iff _).mpr hnot] at hliteral
                cases hliteral
              simp [hliteral, hmem]

end

/-! ## A counter -/

/-- A number that is counted up from where it stands. -/
def numberByRef (default : Option Constant) : Parameter :=
  { Parameter.plain "start" (.byRef (.named "System.Int32" [])) with
    isIn := true
    isOptional := true
    hasDefault := true
    default := default }

/-- Something else than a number can be passed by reference with a null default. -/
theorem tool_rendersAlike : (ofManifest (library [])).RendersAlike "Counter::Use"
    { numberByRef none with type := .byRef (.named "Tool" []) }
    { numberByRef none with type := .named "Tool" [] } :=
  (rendersAlike_byRef_iff rfl rfl).mpr (Or.inr (Or.inl ⟨rfl, by decide⟩))

/-- By value a number can have a constant for its default, and its null default is that of
its type. By reference the constant is refused, and the null default is none of a number. -/
theorem counter_loses_default :
    ¬ (ofManifest (library [])).RendersAlike "Counter::Count"
        (numberByRef (some (.signed ⟨5, by decide, by decide⟩)))
        { numberByRef (some (.signed ⟨5, by decide, by decide⟩)) with
          type := .named "System.Int32" [] }
      ∧ ¬ (ofManifest (library [])).RendersAlike "Counter::Count" (numberByRef none)
        { numberByRef none with type := .named "System.Int32" [] } := by
  constructor
  · rintro ⟨hiff, -⟩
    obtain ⟨r, hr⟩ := hiff.mpr ⟨_, rfl⟩
    have herror : (ofManifest (library [])).parameterRecord "Counter::Count"
        (numberByRef (some (.signed ⟨5, by decide, by decide⟩)))
        = .error (.unsupportedDefault "Counter::Count" "start" "System.Int32&") := rfl
    cases herror.symm.trans hr
  · rintro ⟨-, hsame⟩
    have hdefaults := congrArg ParameterRecord.defaultValue (hsame _ _ rfl rfl)
    exact absurd hdefaults (by decide)

end Module

end ApiBaseline
