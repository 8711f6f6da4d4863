import ApiBaseline.Metadata.Dispatch
import ApiBaseline.Proofs.Metadata.Closure
import ApiBaseline.Proofs.Metadata.Hierarchy
import ApiBaseline.Proofs.Metadata.References
import ApiBaseline.Proofs.TypeRef.Names
import Mathlib.Data.List.Basic

/-!
# Modules that agree on names

What surrounds a type is found by resolving references, and a reference that is
resolved on the way has its names from those that definitions have been written
with: closing a reference over arguments makes up none. So two modules that
resolve the references of some names to the same definitions, which in turn are
written with these names (`AgreeOn`), agree on all that surrounds a type written
with them, whatever else they hold: its hierarchy, level by level (`hierarchy`),
and closures of interfaces (`closure`), whether the searches for them come to an
end or not.
-/

namespace ApiBaseline

/-! ## Definitions and levels written with some names -/

/-- The names of types in the definition's references are of the set. -/
def Definition.NamesIn (S : Set String) (d : Definition) : Prop := ∀ t ∈ d.types, t.NamesIn S

namespace Definition.NamesIn

variable {S : Set String} {d : Definition} (h : d.NamesIn S)

include h

theorem base {t : TypeRef} (ht : d.base = some t) : t.NamesIn S :=
  h t (by simp [Definition.types, ht])

theorem interfaces {t : TypeRef} (ht : t ∈ d.interfaces) : t.NamesIn S :=
  h t (by simp [Definition.types, ht])

theorem genericParam {p : GenericParam} (hp : p ∈ d.genericParams) :
    ∀ t ∈ p.types, t.NamesIn S := fun t ht => h t <|
  List.mem_append_left _ (List.mem_append_right _ (List.mem_flatMap.mpr ⟨p, hp, ht⟩))

theorem member {x : Member} (hx : x ∈ d.members) : ∀ t ∈ x.types, t.NamesIn S :=
  fun t ht => h t (List.mem_append_right _ (List.mem_flatMap.mpr ⟨x, hx, ht⟩))

end Definition.NamesIn

/-- The level is written with names of the set, and so are its arguments. -/
structure Level.NamesIn (S : Set String) (l : Level) : Prop where
  definition : l.definition.NamesIn S
  args : ∀ a ∈ l.args, a.NamesIn S

namespace Level.NamesIn

variable {S : Set String} {l : Level}

theorem bottom {d : Definition} (h : d.NamesIn S) : (Level.mk d d.ownArgs).NamesIn S where
  definition := h
  args a ha := by
    obtain ⟨p, -, rfl⟩ := List.mem_map.mp ha
    exact fun _ hn => absurd hn List.not_mem_nil

theorem base? (h : l.NamesIn S) {t : TypeRef} (ht : l.base? = some t) : t.NamesIn S := by
  obtain ⟨b, hb, rfl⟩ := Option.map_eq_some_iff.mp ht
  exact (h.definition.base hb).substitute _ h.args

theorem declared (h : l.NamesIn S) : ∀ i ∈ Module.declared l, i.NamesIn S := by
  intro i hi
  obtain ⟨t, ht, rfl⟩ := List.mem_map.mp hi
  exact (h.definition.interfaces ht).substitute _ h.args

end Level.NamesIn

/-! ## Searches among the same references -/

theorem foldlM_eq_some_of_mem {search search' : List TypeRef → TypeRef → Option (List TypeRef)}
    {ts seen out : List TypeRef}
    (hsearch : ∀ t ∈ ts, ∀ seen out, search seen t = some out → search' seen t = some out)
    (h : ts.foldlM search seen = some out) : ts.foldlM search' seen = some out := by
  induction ts generalizing seen with
  | nil => exact h
  | cons t ts ih =>
      rw [List.foldlM_cons] at h ⊢
      obtain ⟨mid, hmid, hrest⟩ := Option.bind_eq_some_iff.mp h
      refine Option.bind_eq_some_iff.mpr ⟨mid, hsearch t List.mem_cons_self seen mid hmid, ?_⟩
      exact ih (fun u hu => hsearch u (List.mem_cons_of_mem t hu)) hrest

section

variable {next next' : TypeRef → List TypeRef} {R : Set TypeRef}
  (hclosed : ∀ t ∈ R, ∀ u ∈ next t, u ∈ R) (hsame : ∀ t ∈ R, next' t = next t)

include hclosed hsame

/-- A search that comes to an end does so for other successors too, if they are
the same wherever the search gets. -/
theorem reach?_eq_some_of_same {seen out : List TypeRef} {t : TypeRef} (ht : t ∈ R)
    (h : reach? next seen t = some out) : reach? next' seen t = some out := by
  refine reach?.partial_correctness next
    (fun seen t out => t ∈ R → reach? next' seen t = some out) ?_ seen t out h ht
  intro search hsearch seen t out hstep ht
  rw [reach?.eq_1]
  by_cases hseen : t ∈ seen
  · rwa [if_pos hseen] at hstep ⊢
  · rw [if_neg hseen] at hstep ⊢
    rw [hsame t ht]
    exact foldlM_eq_some_of_mem
      (fun u hu seen out hout => hsearch seen u out hout (hclosed t ht u hu)) hstep

theorem reach?_congr (seen : List TypeRef) {t : TypeRef} (ht : t ∈ R) :
    reach? next' seen t = reach? next seen t := by
  have hclosed' : ∀ t ∈ R, ∀ u ∈ next' t, u ∈ R := fun t ht u hu =>
    hclosed t ht u (hsame t ht ▸ hu)
  refine Option.ext fun out => ⟨?_, reach?_eq_some_of_same hclosed hsame ht⟩
  exact reach?_eq_some_of_same hclosed' (fun t ht => (hsame t ht).symm) ht

end

/-! ## Agreement -/

/-- Two modules that find the same definitions by references whose names are of
the set. The definitions are written with names of the set themselves. -/
structure AgreeOn (S : Set String) (m m' : Module) : Prop where
  resolve : ∀ t : TypeRef, t.NamesIn S → m'.resolve t = m.resolve t
  isValueType : ∀ t : TypeRef, t.NamesIn S → m'.isValueType t = m.isValueType t
  namesIn : ∀ (t : TypeRef) d, t.NamesIn S → m.resolve t = some d → d.NamesIn S

namespace AgreeOn

variable {S : Set String} {m m' : Module} (h : AgreeOn S m m')

include h

/-! ### Levels -/

theorem namesIn_nextLevel? {seen : List (String × Nat)} {l up : Level} (hl : l.NamesIn S)
    (hup : m.nextLevel? seen l = some up) : up.NamesIn S := by
  obtain ⟨base, hbase, hres, -, hargs⟩ := Module.nextLevel?_eq_some hup
  have hnames := hl.base? hbase
  exact ⟨h.namesIn base _ hnames hres, hargs ▸ hnames.args⟩

theorem nextLevel? (seen : List (String × Nat)) {l : Level} (hl : l.NamesIn S) :
    m'.nextLevel? seen l = m.nextLevel? seen l := by
  unfold Module.nextLevel?
  cases hbase : l.base? with
  | none => rfl
  | some base => simp only [h.resolve base (hl.base? hbase)]

theorem climb (more : Nat) (seen : List (String × Nat)) {l : Level} (hl : l.NamesIn S) :
    m'.climb more seen l = m.climb more seen l := by
  induction more generalizing seen l with
  | zero => rfl
  | succ more ih =>
      rw [Module.climb, Module.climb, h.nextLevel? seen hl]
      cases hup : m.nextLevel? seen l with
      | none => rfl
      | some up => simp only [ih _ (h.namesIn_nextLevel? hl hup)]

variable {d : Definition} (hd : d.NamesIn S)

include hd

theorem hierarchy : m'.hierarchy d = m.hierarchy d := h.climb _ _ (.bottom hd)

theorem namesIn_of_mem_hierarchy : ∀ l ∈ m.hierarchy d, l.NamesIn S :=
  Module.climb_invariant (fun _ _ _ hl hup => h.namesIn_nextLevel? hl hup) (.bottom hd)

omit hd

/-! ### Interfaces -/

theorem namesIn_of_mem_parents {i : TypeRef} (hi : i.NamesIn S) :
    ∀ j ∈ m.parents i, j.NamesIn S := by
  unfold Module.parents
  cases hres : m.resolve i with
  | none => exact fun _ hj => absurd hj List.not_mem_nil
  | some known =>
      have hlevel : (Level.mk known i.args).NamesIn S := ⟨h.namesIn i known hi hres, hi.args⟩
      exact hlevel.declared

theorem parents {i : TypeRef} (hi : i.NamesIn S) : m'.parents i = m.parents i := by
  unfold Module.parents
  rw [h.resolve i hi]

theorem expand (seen : List TypeRef) {i : TypeRef} (hi : i.NamesIn S) :
    m'.expand seen i = m.expand seen i := by
  have hreach := reach?_congr (R := {i | i.NamesIn S}) (fun _ => h.namesIn_of_mem_parents)
    (fun _ => h.parents) seen hi
  rw [Module.expand, hreach, Module.expand]

theorem closure {i : TypeRef} (hi : i.NamesIn S) : m'.closure i = m.closure i := h.expand [] hi

/-- Lists of interfaces are reduced in the same way. -/
theorem introduced {declared : List TypeRef} (hdeclared : ∀ i ∈ declared, i.NamesIn S) :
    m'.introduced declared = m.introduced declared := by
  have himplies : ∀ i, declared.any (m'.implies · i) = declared.any (m.implies · i) := by
    intro i
    refine any_congr_of_mem fun j hj => ?_
    rw [Module.implies, h.closure (hdeclared j hj), Module.implies]
  simp only [Module.introduced, himplies]

theorem declares {l : Level} (hl : l.NamesIn S) : m'.declares l = m.declares l := by
  funext i
  refine any_congr_of_mem fun j hj => ?_
  rw [h.closure (hl.declared j hj)]

theorem namesIn_of_leads {i j : TypeRef} (hi : i.NamesIn S) (hlead : Leads m.parents i j) :
    j.NamesIn S := by
  induction hlead with
  | refl => exact hi
  | tail _ hstep ih => exact h.namesIn_of_mem_parents ih _ hstep

include hd

theorem namesIn_declarations : ∀ i ∈ m.declarations d, i.NamesIn S := by
  intro i hi
  obtain ⟨l, hl, hdeclared⟩ := List.mem_flatMap.mp hi
  exact (h.namesIn_of_mem_hierarchy hd l hl).declared i hdeclared

theorem allInterfaces : m'.allInterfaces d = m.allInterfaces d := by
  rw [Module.allInterfaces, h.hierarchy hd]
  exact List.foldl_ext _ _ _ fun seen i hi => h.expand seen (h.namesIn_declarations hd i hi)

theorem namesIn_of_mem_allInterfaces : ∀ i ∈ m.allInterfaces d, i.NamesIn S := by
  intro i hi
  obtain ⟨j, hj, hlead⟩ := Module.allInterfaces_sound hi
  exact h.namesIn_of_leads (h.namesIn_declarations hd j hj) hlead

end AgreeOn

end ApiBaseline
