import ApiBaseline.Proofs.TypeRef.Substitution
import Mathlib.Data.Set.Basic

/-!
# Names of types in references

A reference names types, at its head and in its arguments. Substitution makes up
no names: those of the result come from the reference or from what has been put
in (`typeNames_bind`). So references whose names lie in a set stay there, however
often they are closed over one another's arguments (`NamesIn.substitute`).
-/

namespace ApiBaseline.TypeRef

mutual

/-- The names of the types that a reference mentions. -/
def typeNames : TypeRef → List String
  | named name args => name :: typeNamesAll args
  | param _ => []
  | array element _ => element.typeNames
  | byRef target => target.typeNames
  | pointer target => target.typeNames

def typeNamesAll : List TypeRef → List String
  | [] => []
  | t :: ts => t.typeNames ++ typeNamesAll ts

end

theorem typeNamesAll_eq_flatMap (ts : List TypeRef) :
    typeNamesAll ts = ts.flatMap typeNames := by
  induction ts with
  | nil => rfl
  | cons t ts ih => rw [typeNamesAll, ih, List.flatMap_cons]

theorem mem_typeNames_named {name : String} {args : List TypeRef} {n : String} :
    n ∈ (named name args).typeNames ↔ n = name ∨ ∃ a ∈ args, n ∈ a.typeNames := by
  rw [typeNames, typeNamesAll_eq_flatMap, List.mem_cons, List.mem_flatMap]

theorem mem_typeNames_bind {σ : String → TypeRef} {t : TypeRef} {n : String} :
    n ∈ (t.bind σ).typeNames ↔ n ∈ t.typeNames ∨ ∃ k ∈ t.mentions, n ∈ (σ k).typeNames := by
  induction t with
  | named name args ih =>
      simp only [bind, mem_typeNames_named, bindAll_eq_map, List.mem_map, exists_exists_and_eq_and,
        mem_mentions_named]
      constructor
      · rintro (hn | ⟨a, ha, hn⟩)
        · exact Or.inl (Or.inl hn)
        · rcases (ih a ha).mp hn with hn | ⟨k, hk, hn⟩
          · exact Or.inl (Or.inr ⟨a, ha, hn⟩)
          · exact Or.inr ⟨k, ⟨a, ha, hk⟩, hn⟩
      · rintro ((hn | ⟨a, ha, hn⟩) | ⟨k, ⟨a, ha, hk⟩, hn⟩)
        · exact Or.inl hn
        · exact Or.inr ⟨a, ha, (ih a ha).mpr (Or.inl hn)⟩
        · exact Or.inr ⟨a, ha, (ih a ha).mpr (Or.inr ⟨k, hk, hn⟩)⟩
  | param m => simp [bind, typeNames, mentions]
  | array element rank ih => exact ih
  | byRef target ih => exact ih
  | pointer target ih => exact ih

/-- What is put in for a parameter is one of the arguments, if anything is. -/
theorem actual_eq_or_mem (params : List String) (actuals : List TypeRef) (n : String) :
    actual params actuals n = param n ∨ actual params actuals n ∈ actuals := by
  by_cases h : IsBound params actuals n
  · exact Or.inr (actual_mem_of_isBound h)
  · exact Or.inl (actual_of_not_isBound h)

/-- All names in the reference are of the set. -/
def NamesIn (S : Set String) (t : TypeRef) : Prop := ∀ n ∈ t.typeNames, n ∈ S

namespace NamesIn

variable {S : Set String}

theorem definitionName {t : TypeRef} (h : t.NamesIn S) {name : String}
    (hname : t.definitionName? = some name) : name ∈ S := by
  cases t with
  | named n args =>
      obtain rfl := Option.some.inj hname
      exact h n (mem_typeNames_named.mpr (Or.inl rfl))
  | param n => cases hname
  | array element rank => cases hname
  | byRef target => cases hname
  | pointer target => cases hname

theorem args {t : TypeRef} (h : t.NamesIn S) : ∀ a ∈ t.args, a.NamesIn S := by
  cases t with
  | named n args => exact fun a ha m hm => h m (mem_typeNames_named.mpr (Or.inr ⟨a, ha, hm⟩))
  | param n => exact fun _ ha => absurd ha List.not_mem_nil
  | array element rank => exact fun _ ha => absurd ha List.not_mem_nil
  | byRef target => exact fun _ ha => absurd ha List.not_mem_nil
  | pointer target => exact fun _ ha => absurd ha List.not_mem_nil

theorem substitute {t : TypeRef} (h : t.NamesIn S) (params : List String)
    {actuals : List TypeRef} (hactuals : ∀ a ∈ actuals, a.NamesIn S) :
    (t.substitute params actuals).NamesIn S := by
  intro n hn
  rw [substitute_eq_bind, mem_typeNames_bind] at hn
  rcases hn with hn | ⟨k, -, hn⟩
  · exact h n hn
  · rcases actual_eq_or_mem params actuals k with hparam | hmem
    · rw [hparam] at hn
      exact absurd hn List.not_mem_nil
    · exact hactuals _ hmem n hn

end NamesIn

end ApiBaseline.TypeRef
