import ApiBaseline.Proofs.Metadata.Closure
import ApiBaseline.Proofs.Metadata.Hierarchy
import ApiBaseline.Proofs.Metadata.Lookup

/-!
# Types that nothing builds on

A type is a leaf when it stands in no other type's hierarchy and no type
implements it. That nothing names it as a base or an interface is not enough: a
definition can have a generic parameter of its own for a base, and what stands
there is up to those who derive from it. Where there is no such base or
interface, names decide (`isLeaf_of_unnamed`).
-/

namespace ApiBaseline

def TypeRef.isParam : TypeRef → Bool
  | param _ => true
  | _ => false

def Definition.supertypes (d : Definition) : List TypeRef := d.base.toList ++ d.interfaces

/-- All bases and interfaces of a manifest. -/
def Manifest.supertypes (M : Manifest) : List TypeRef := M.definitions.flatMap (·.supertypes)

namespace Module

/-- No type has `owner` above itself, and none implements it. -/
structure IsLeaf (m : Module) (owner : Definition) : Prop where
  notAbove : ∀ d ∈ m.manifest.types, ∀ l ∈ (m.hierarchy d).drop 1, l.definition ≠ owner
  notImplemented : ∀ d ∈ m.manifest.types, ∀ i ∈ m.allInterfaces d, m.resolve i ≠ some owner

/-- What a reference points at does not change by substitution, unless it is a
generic parameter. -/
theorem resolve_substitute_of_ne_param {m : Module} {t : TypeRef} (h : t.isParam = false)
    (names : List String) (actuals : List TypeRef) :
    m.resolve (t.substitute names actuals) = m.resolve t := by
  cases t with
  | named name args =>
      simp [resolve, TypeRef.substitute, TypeRef.definitionName?, TypeRef.arity, TypeRef.args]
  | param name => cases h
  | array element rank => rfl
  | byRef target => rfl
  | pointer target => rfl

variable {M : Manifest} {d : Definition}

theorem base_mem_supertypes (hd : d ∈ M.definitions) {t : TypeRef} (h : d.base = some t) :
    t ∈ M.supertypes :=
  List.mem_flatMap.mpr ⟨d, hd, List.mem_append_left _ (Option.mem_toList.mpr h)⟩

theorem interface_mem_supertypes (hd : d ∈ M.definitions) {t : TypeRef}
    (h : t ∈ d.interfaces) : t ∈ M.supertypes :=
  List.mem_flatMap.mpr ⟨d, hd, List.mem_append_right _ h⟩

/-- All levels are definitions of the manifest. -/
theorem definition_mem_of_mem_climb {more : Nat} {seen : List (String × Nat)} {l : Level}
    (hl : l.definition ∈ M.definitions) :
    ∀ up ∈ (ofManifest M).climb more seen l, up.definition ∈ M.definitions := by
  refine climb_invariant (fun seen below up _ hup => ?_) hl
  obtain ⟨base, -, hres, -⟩ := nextLevel?_eq_some hup
  exact (resolve_eq_some hres).1

/-- Every level above the first one is what a base points at. -/
theorem climb_supertype {more : Nat} {seen : List (String × Nat)} {l : Level}
    (hl : l.definition ∈ M.definitions) :
    ∀ up ∈ ((ofManifest M).climb more seen l).drop 1,
      ∃ t ∈ M.supertypes, ∃ names actuals,
        (ofManifest M).resolve (t.substitute names actuals) = some up.definition := by
  intro up hup
  obtain ⟨below, hbelow, seen', -, hnext⟩ := exists_below hup
  obtain ⟨base, hbase, hres, -, -⟩ := nextLevel?_eq_some hnext
  obtain ⟨t, ht, rfl⟩ := Option.map_eq_some_iff.mp hbase
  have hmem := definition_mem_of_mem_climb hl below hbelow
  exact ⟨t, base_mem_supertypes hmem ht, _, _, hres⟩

/-- Every interface of a type is what a declared interface closes to. -/
theorem allInterfaces_supertype (hd : d ∈ M.definitions) {i : TypeRef}
    (hi : i ∈ (ofManifest M).allInterfaces d) :
    ∃ t ∈ M.supertypes, ∃ names actuals, i = t.substitute names actuals := by
  obtain ⟨j, hj, hlead⟩ := allInterfaces_sound hi
  induction hlead with
  | refl =>
      obtain ⟨l, hl, hdeclared⟩ := List.mem_flatMap.mp hj
      obtain ⟨t, ht, rfl⟩ := List.mem_map.mp hdeclared
      have hmem : l.definition ∈ M.definitions := definition_mem_of_mem_climb hd l hl
      exact ⟨t, interface_mem_supertypes hmem ht, _, _, rfl⟩
  -- How `k` has been reached does not matter: what it extends is declared by a definition.
  | @tail k i _ hstep _ =>
      unfold parents at hstep
      cases hres : (ofManifest M).resolve k with
      | none => simp [hres] at hstep
      | some known =>
          simp only [hres] at hstep
          obtain ⟨t, ht, rfl⟩ := List.mem_map.mp hstep
          exact ⟨t, interface_mem_supertypes (resolve_eq_some hres).1 ht, _, _, rfl⟩

/-- A type that no base and no interface names is a leaf, unless a generic
parameter stands for a base or an interface. -/
theorem isLeaf_of_unnamed {owner : Definition}
    (hunnamed : ∀ t ∈ M.supertypes, (ofManifest M).resolve t ≠ some owner)
    (hparam : ∀ t ∈ M.supertypes, t.isParam = false) : (ofManifest M).IsLeaf owner where
  notAbove d hd l hl hdef := by
    obtain ⟨t, ht, names, actuals, hres⟩ := climb_supertype (List.mem_append_left _ hd) l hl
    rw [resolve_substitute_of_ne_param (hparam t ht), hdef] at hres
    exact hunnamed t ht hres
  notImplemented d hd i hi hres := by
    obtain ⟨t, ht, names, actuals, rfl⟩ :=
      allInterfaces_supertype (List.mem_append_left _ hd) hi
    rw [resolve_substitute_of_ne_param (hparam t ht)] at hres
    exact hunnamed t ht hres

end Module

end ApiBaseline
