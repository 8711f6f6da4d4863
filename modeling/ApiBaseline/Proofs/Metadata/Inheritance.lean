import ApiBaseline.Proofs.Metadata.Closure
import ApiBaseline.Proofs.Metadata.Hierarchy
import ApiBaseline.Proofs.Metadata.Lookup
import ApiBaseline.Proofs.TypeRef.Substitution

/-!
# What a type inherits

Above a type stands the hierarchy of its base, with the arguments of the base
reference put in for the parameters (`hierarchy_base`), and extending interfaces
is blind to that replacement (`leads_substitute`). So all interfaces of the
base are interfaces of the type.

The hierarchy of the base is cut short in the type's own hierarchy in two cases:
when the type occurs in it, and when no level is left for it. References that
mention parameters of another definition would be replaced differently at the
two ends, so every definition must keep to its own (`Definition.WellScoped`).
-/

namespace ApiBaseline

/-- The parameters of a definition are distinct, and its base and interfaces
mention no others. -/
structure Definition.WellScoped (d : Definition) : Prop where
  distinct : d.paramNames.Nodup
  base : ∀ b, d.base = some b → b.mentions ⊆ d.paramNames
  interfaces : ∀ i ∈ d.interfaces, i.mentions ⊆ d.paramNames

theorem Definition.ownArgs_eq (d : Definition) : d.ownArgs = d.paramNames.map .param := by
  simp [ownArgs, paramNames, genericRefs, genericNames, Function.comp_def]

theorem Definition.paramNames_length (d : Definition) : d.paramNames.length = d.arity := by
  simp [paramNames, genericNames, arity]

/-! ## Levels seen from further down -/

namespace Level

/-- A level whose definition is well scoped and has an argument for every
parameter. -/
structure Fits (l : Level) : Prop where
  wellScoped : l.definition.WellScoped
  length : l.args.length = l.definition.paramNames.length

/-- The level in the terms of a type further down. -/
def substitute (names : List String) (actuals : List TypeRef) (l : Level) : Level where
  definition := l.definition
  args := l.args.map (·.substitute names actuals)

theorem fits_bottom {d : Definition} (h : d.WellScoped) : (Level.mk d d.ownArgs).Fits where
  wellScoped := h
  length := by rw [Definition.ownArgs_eq, List.length_map]

variable {l : Level} (names : List String) (actuals : List TypeRef)

theorem close_substitute (h : l.Fits) {t : TypeRef}
    (ht : t.mentions ⊆ l.definition.paramNames) :
    (l.substitute names actuals).close t = (l.close t).substitute names actuals :=
  (TypeRef.substitute_substitute names actuals h.length t ht).symm

theorem base?_substitute (h : l.Fits) :
    (l.substitute names actuals).base? = l.base?.map (·.substitute names actuals) := by
  unfold base?
  rw [Option.map_map]
  cases hbase : l.definition.base with
  | none => simp [substitute, hbase]
  | some b =>
      have hclose := close_substitute names actuals h (h.wellScoped.base b hbase)
      simpa [substitute, hbase] using hclose

theorem declared_substitute (h : l.Fits) :
    Module.declared (l.substitute names actuals)
      = (Module.declared l).map (·.substitute names actuals) := by
  unfold Module.declared
  rw [List.map_map]
  exact List.map_congr_left fun i hi =>
    close_substitute names actuals h (h.wellScoped.interfaces i hi)

end Level

/-! ## The hierarchy of the base -/

namespace Module

variable {M : Manifest}

/-- The levels of a manifest of well scoped definitions fit. -/
theorem fits_nextLevel? (hscoped : ∀ d ∈ M.definitions, d.WellScoped)
    {seen : List (String × Nat)} {l up : Level}
    (h : (ofManifest M).nextLevel? seen l = some up) : up.Fits := by
  obtain ⟨base, -, hres, -, hargs⟩ := nextLevel?_eq_some h
  obtain ⟨hmem, -, hlen⟩ := resolve_eq_some hres
  exact ⟨hscoped _ hmem, by rw [hargs, hlen, Definition.paramNames_length]⟩

theorem fits_climb (hscoped : ∀ d ∈ M.definitions, d.WellScoped) {more : Nat}
    {seen : List (String × Nat)} {l : Level} (h : l.Fits) :
    ∀ up ∈ (ofManifest M).climb more seen l, up.Fits :=
  climb_invariant (fun _ _ _ _ hup => fits_nextLevel? hscoped hup) h

/-- A hierarchy in the terms of a type further down is part of that type's
hierarchy, as long as the type does not occur in it. -/
theorem climb_substitute (hscoped : ∀ d ∈ M.definitions, d.WellScoped)
    (names : List String) (actuals : List TypeRef) (below : String × Nat) {more : Nat}
    {seen : List (String × Nat)} {l : Level} (hfits : l.Fits)
    (hbelow : below ∉ ((ofManifest M).climb more seen l).map (·.definition.key)) :
    (((ofManifest M).climb more seen l).map (·.substitute names actuals))
      <+: (ofManifest M).climb more (seen ++ [below]) (l.substitute names actuals) := by
  induction more generalizing seen l with
  | zero => exact List.prefix_refl _
  | succ more ih =>
      cases hup : (ofManifest M).nextLevel? seen l with
      | none =>
          simp only [climb, hup]
          -- Below, the hierarchy may go on: a parameter for a base has become a type.
          split
          · exact List.prefix_refl _
          · exact ⟨_, rfl⟩
      | some up =>
          obtain ⟨base, hbase, hres, hnew, hargs⟩ := nextLevel?_eq_some hup
          obtain ⟨hres', hargs'⟩ := resolve_substitute hres names actuals
          rw [climb, hup, List.map_cons, List.mem_cons, not_or] at hbelow
          have hne : up.definition.key ∉ seen ++ [below] := by
            have hself := mem_climb_self (ofManifest M) more (up.definition.key :: seen) up
            have hbelow' : up.definition.key ≠ below := fun h =>
              hbelow.2 (h ▸ List.mem_map_of_mem hself)
            simpa using ⟨hnew, hbelow'⟩
          have hup' : (ofManifest M).nextLevel? (seen ++ [below]) (l.substitute names actuals)
              = some (up.substitute names actuals) := by
            rw [nextLevel?_of_resolve _ hres' hne, hargs', ← hargs]
            · rfl
            · rw [Level.base?_substitute names actuals hfits, hbase]
              rfl
          rw [climb, hup, climb, hup', List.map_cons]
          exact List.cons_prefix_cons.mpr
            ⟨rfl, ih (fits_nextLevel? hscoped hup) hbelow.2⟩

variable {derived parent : Definition} {base : TypeRef}

/-- Above a type stands what its base points at, as far as there are levels left. -/
theorem hierarchy_of_base (hbase : derived.base = some base)
    (hparent : (ofManifest M).resolve base = some parent) (hne : parent.key ≠ derived.key) :
    (ofManifest M).hierarchy derived = ⟨derived, derived.ownArgs⟩
      :: (ofManifest M).climb (maxLevels - 2) ([parent.key] ++ [derived.key])
          ⟨parent, base.args⟩ := by
  have hup : (ofManifest M).nextLevel? [derived.key] ⟨derived, derived.ownArgs⟩
      = some ⟨parent, base.args⟩ := by
    refine nextLevel?_of_resolve ?_ hparent fun hkey => hne (List.mem_singleton.mp hkey)
    simp only [Level.base?, hbase, Option.map_some, Level.close, Definition.ownArgs_eq,
      TypeRef.substitute_own]
  rw [hierarchy, show maxLevels - 1 = maxLevels - 2 + 1 from rfl, climb, hup]
  rfl

/-- The type takes one level of its hierarchy. A base that leaves one for it loses
nothing. -/
theorem climb_of_short (hlevels : ((ofManifest M).hierarchy parent).length < maxLevels) :
    (ofManifest M).climb (maxLevels - 2) [parent.key] ⟨parent, parent.ownArgs⟩
      = (ofManifest M).hierarchy parent := climb_eq_of_length (Nat.le_of_lt_succ hlevels)

theorem key_ne_of_not_mem_hierarchy
    (hnew : derived.key ∉ ((ofManifest M).hierarchy parent).map (·.definition.key)) :
    parent.key ≠ derived.key := by
  have hself := mem_climb_self (ofManifest M) (maxLevels - 1) [parent.key]
    ⟨parent, parent.ownArgs⟩
  exact fun hkey => hnew (hkey ▸ List.mem_map_of_mem hself)

/-- The hierarchy of the base, in the terms of the type, is part of the type's
hierarchy. -/
theorem hierarchy_base (hscoped : ∀ d ∈ M.definitions, d.WellScoped)
    (hbase : derived.base = some base) (hparent : (ofManifest M).resolve base = some parent)
    (hnew : derived.key ∉ ((ofManifest M).hierarchy parent).map (·.definition.key))
    (hlevels : ((ofManifest M).hierarchy parent).length < maxLevels) :
    (((ofManifest M).hierarchy parent).map (·.substitute parent.paramNames base.args))
      <+: ((ofManifest M).hierarchy derived).tail := by
  obtain ⟨hmem, -, hlen⟩ := resolve_eq_some hparent
  have hwell := hscoped parent hmem
  have hargs : base.args.length = parent.paramNames.length := by
    rw [hlen, Definition.paramNames_length]
  have hstart : (Level.mk parent parent.ownArgs).substitute parent.paramNames base.args
      = ⟨parent, base.args⟩ := by
    have hback := TypeRef.own_substitute hwell.distinct hargs
    simp only [Level.substitute, Definition.ownArgs_eq, List.map_map, Function.comp_def, hback]
  have hshort := climb_of_short hlevels
  have hfront := climb_substitute hscoped parent.paramNames base.args derived.key
    (Level.fits_bottom hwell) (by rwa [hshort])
  rw [hshort, hstart] at hfront
  rwa [hierarchy_of_base hbase hparent (key_ne_of_not_mem_hierarchy hnew), List.tail_cons]

/-- Above a base without parameters all is the same from the type as from the base. -/
theorem hierarchy_of_closed_base (hbase : derived.base = some base)
    (hparent : (ofManifest M).resolve base = some parent) (hclosed : parent.genericParams = [])
    (hnew : derived.key ∉ ((ofManifest M).hierarchy parent).map (·.definition.key))
    (hlevels : ((ofManifest M).hierarchy parent).length < maxLevels) :
    (ofManifest M).hierarchy derived
      = ⟨derived, derived.ownArgs⟩ :: (ofManifest M).hierarchy parent := by
  have hargs : base.args = parent.ownArgs := by
    obtain ⟨-, -, hlen⟩ := resolve_eq_some hparent
    rw [Definition.arity, hclosed, List.length_nil, List.length_eq_zero_iff] at hlen
    rw [hlen, Definition.ownArgs, hclosed]
    rfl
  have hshort := climb_of_short hlevels
  rw [hierarchy_of_base hbase hparent (key_ne_of_not_mem_hierarchy hnew), hargs,
    climb_append_seen (by rwa [hshort]), hshort]

/-! ## The interfaces of the base -/

/-- What an interface extends does not depend on where it is looked at from. -/
theorem parents_substitute (hscoped : ∀ d ∈ M.definitions, d.WellScoped)
    (names : List String) (actuals : List TypeRef) {i j : TypeRef}
    (h : j ∈ (ofManifest M).parents i) :
    j.substitute names actuals ∈ (ofManifest M).parents (i.substitute names actuals) := by
  unfold parents at h
  cases hres : (ofManifest M).resolve i with
  | none => simp [hres] at h
  | some d =>
      obtain ⟨hmem, -, hlen⟩ := resolve_eq_some hres
      obtain ⟨hres', hargs⟩ := resolve_substitute hres names actuals
      simp only [hres] at h
      obtain ⟨k, hk, rfl⟩ := List.mem_map.mp h
      have hcompose := TypeRef.substitute_substitute names actuals
        (hlen.trans d.paramNames_length.symm) k ((hscoped d hmem).interfaces k hk)
      unfold parents
      rw [hres', hargs, hcompose]
      exact List.mem_map_of_mem hk

theorem leads_substitute (hscoped : ∀ d ∈ M.definitions, d.WellScoped)
    (names : List String) (actuals : List TypeRef) {i j : TypeRef}
    (h : Leads (ofManifest M).parents i j) :
    Leads (ofManifest M).parents (i.substitute names actuals)
      (j.substitute names actuals) := by
  induction h with
  | refl => exact .refl
  | tail _ hstep ih => exact ih.tail (parents_substitute hscoped names actuals hstep)

/-- All interfaces of the base are interfaces of the type, with the arguments
of the base reference put in. -/
theorem allInterfaces_inherited (hscoped : ∀ d ∈ M.definitions, d.WellScoped)
    (hbase : derived.base = some base) (hparent : (ofManifest M).resolve base = some parent)
    (hnew : derived.key ∉ ((ofManifest M).hierarchy parent).map (·.definition.key))
    (hlevels : ((ofManifest M).hierarchy parent).length < maxLevels)
    (hfin : ((ofManifest M).interfaceClosure derived).Finite) :
    ∀ i ∈ (ofManifest M).allInterfaces parent,
      i.substitute parent.paramNames base.args ∈ (ofManifest M).allInterfaces derived := by
  intro i hi
  obtain ⟨j, hj, hlead⟩ := allInterfaces_sound hi
  obtain ⟨l, hl, hjl⟩ := List.mem_flatMap.mp hj
  have hfront := hierarchy_base hscoped hbase hparent hnew hlevels
  have hlevel : l.substitute parent.paramNames base.args ∈ (ofManifest M).hierarchy derived :=
    List.mem_of_mem_tail (hfront.subset (List.mem_map_of_mem hl))
  obtain ⟨hmem, -⟩ := resolve_eq_some hparent
  have hfits : l.Fits := fits_climb hscoped (Level.fits_bottom (hscoped parent hmem)) l hl
  have hdeclared : j.substitute parent.paramNames base.args
      ∈ (ofManifest M).declarations derived := by
    refine List.mem_flatMap.mpr ⟨_, hlevel, ?_⟩
    rw [Level.declared_substitute _ _ hfits]
    exact List.mem_map_of_mem hjl
  exact (mem_allInterfaces_iff hfin _).mpr
    ⟨_, hdeclared, leads_substitute hscoped parent.paramNames base.args hlead⟩

/-- Something that holds pieces of any type. -/
def box : Definition :=
  { openClass "Box" ["T"] none [] with interfaces := [.named "ISource" [.param "T"]] }

/-- A box of food. -/
def tin : Definition := openClass "Tin" [] (some (.named "Box" [.named "Food" []])) []

/-- A source of pieces can be read in rows of them. -/
def source : Definition :=
  { box with
    name := "ISource"
    isInterface := true
    interfaces := [.named "IReader" [.array (.param "T") 1]] }

/-- The tin, the box and the source; readers are defined elsewhere. -/
def pantry : Manifest := ⟨"Pantry", [tin, box, source], [], []⟩

theorem wellScoped_pantry : ∀ d ∈ pantry.definitions, d.WellScoped := by
  have hcheck : ∀ d ∈ pantry.definitions, d.paramNames.Nodup
      ∧ (∀ b ∈ d.base, b.mentions ⊆ d.paramNames)
      ∧ ∀ i ∈ d.interfaces, i.mentions ⊆ d.paramNames := by decide
  exact fun d hd => ⟨(hcheck d hd).1, (hcheck d hd).2.1, (hcheck d hd).2.2⟩

/-- A tin can be read in rows of food, since a box can be read in rows of
whatever it holds. -/
theorem tin_reads_food :
    .named "IReader" [.array (.param "T") 1] ∈ (ofManifest pantry).allInterfaces box
      ∧ .named "IReader" [.array (.named "Food" []) 1]
        ∈ (ofManifest pantry).allInterfaces tin := by
  have hbox : ((ofManifest pantry).interfaceClosure box).Finite :=
    interfaceClosure_finite
      [.named "ISource" [.param "T"], .named "IReader" [.array (.param "T") 1]]
      (by decide) (by decide)
  have htin : ((ofManifest pantry).interfaceClosure tin).Finite :=
    interfaceClosure_finite
      [.named "ISource" [.named "Food" []], .named "IReader" [.array (.named "Food" []) 1]]
      (by decide) (by decide)
  have hread : .named "IReader" [.array (.param "T") 1]
      ∈ (ofManifest pantry).allInterfaces box := by
    refine (mem_allInterfaces_iff hbox _).mpr ⟨.named "ISource" [.param "T"], by decide, ?_⟩
    exact .single (by decide)
  have hbase : tin.base = some (.named "Box" [.named "Food" []]) := rfl
  exact ⟨hread, allInterfaces_inherited wellScoped_pantry hbase (by decide) (by decide)
    (by decide) htin _ hread⟩

end Module

end ApiBaseline
