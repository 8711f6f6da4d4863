import ApiBaseline.Proofs.Metadata.Inheritance
import ApiBaseline.Proofs.TypeRef.Renaming

/-!
# Hierarchies as chains of bases

A hierarchy is a chain in which each level is what the base of the level below points
at. It holds no name and arity twice, and within the limit on levels it goes on until
there is no further level to take (`Module.IsBaseChain`). Bases are functions of their
levels, so this leaves no choice: there is one such chain (`climb_eq_of_isChain`).

Arguments are closed over the arguments of the level below, and those in the end over
the parameters of the type at the bottom. Every parameter is replaced on the way, since
a base is looked up by the number of its arguments (`scopedIn_hierarchy`).
-/

namespace ApiBaseline

namespace Module

/-- The level `up` is what the base of the level `below` points at. -/
def IsBaseOf (m : Module) (below up : Level) : Prop :=
  ∃ base, below.base? = some base ∧ m.resolve base = some up.definition
    ∧ up.args = base.args ∧ up.args.length = up.definition.arity

/-- There is no level above `last` in a chain with the given names and arities: it has no
base, the base is opaque, or its definition stands in the chain already. -/
def EndsAt (m : Module) (keys : List (String × Nat)) (last : Level) : Prop :=
  last.definition.base = none
    ∨ ∃ base, last.base? = some base
      ∧ (m.resolve base = none ∨ ∃ d, m.resolve base = some d ∧ d.key ∈ keys)

/-- The levels are the type itself, what its base points at, and so on as far as that
leads. -/
structure IsBaseChain (m : Module) (d : Definition) (levels : List Level) : Prop where
  start : levels.head? = some ⟨d, d.ownArgs⟩
  steps : levels.IsChain m.IsBaseOf
  distinct : (levels.map (·.definition.key)).Nodup
  bounded : levels.length ≤ 64
  maximal : levels.length < 64 →
    ∀ last ∈ levels.getLast?, m.EndsAt (levels.map (·.definition.key)) last

/-! ## Steps -/

variable {m : Module} {seen : List (String × Nat)} {l up : Level}

theorem nextLevel?_eq_none_iff : m.nextLevel? seen l = none ↔ m.EndsAt seen l := by
  unfold nextLevel? EndsAt Level.base?
  cases l.definition.base with
  | none => simp
  | some b => cases hres : m.resolve (l.close b) <;> simp [hres]

theorem EndsAt.mono {keys keys' : List (String × Nat)} (h : m.EndsAt keys l)
    (hkeys : keys ⊆ keys') : m.EndsAt keys' l := by
  rcases h with hnone | ⟨base, hbase, hopaque | ⟨d, hres, hkey⟩⟩
  · exact Or.inl hnone
  · exact Or.inr ⟨base, hbase, Or.inl hopaque⟩
  · exact Or.inr ⟨base, hbase, Or.inr ⟨d, hres, hkeys hkey⟩⟩

theorem IsBaseOf.nextLevel? (h : m.IsBaseOf l up) (hnew : up.definition.key ∉ seen) :
    m.nextLevel? seen l = some up := by
  obtain ⟨base, hbase, hres, hargs, -⟩ := h
  rw [nextLevel?_of_resolve hbase hres hnew, ← hargs]

theorem isBaseOf_of_nextLevel? {M : Manifest} (h : (ofManifest M).nextLevel? seen l = some up) :
    (ofManifest M).IsBaseOf l up := by
  obtain ⟨base, hbase, hres, -, hargs⟩ := nextLevel?_eq_some h
  obtain ⟨-, -, hlength⟩ := resolve_eq_some hres
  exact ⟨base, hbase, hres, hargs, hargs ▸ hlength⟩

/-! ## Climbing -/

theorem isChain_climb {M : Manifest} (more : Nat) (seen : List (String × Nat)) (l : Level) :
    ((ofManifest M).climb more seen l).IsChain (ofManifest M).IsBaseOf := by
  induction more generalizing seen l with
  | zero => exact .singleton l
  | succ more ih =>
      rw [climb]
      cases hup : (ofManifest M).nextLevel? seen l with
      | none => exact .singleton l
      | some up =>
          have hrest := ih (up.definition.key :: seen) up
          rw [climb_eq_cons] at hrest
          simp only
          rw [climb_eq_cons]
          exact .cons_cons (isBaseOf_of_nextLevel? hup) hrest

theorem length_climb_le (m : Module) (more : Nat) (seen : List (String × Nat)) (l : Level) :
    (m.climb more seen l).length ≤ more + 1 := by
  induction more generalizing seen l with
  | zero => exact Nat.le_refl 1
  | succ more ih =>
      rw [climb]
      cases m.nextLevel? seen l with
      | none => exact Nat.le_add_left 1 _
      | some up => exact Nat.succ_le_succ (ih _ up)

/-- A climb that ends before the limit ends at its last level. -/
theorem endsAt_climb {more : Nat} {last : Level} (hlength : (m.climb more seen l).length ≤ more)
    (hlast : last ∈ (m.climb more seen l).getLast?) :
    m.EndsAt ((m.climb more seen l).map (·.definition.key) ++ seen) last := by
  induction more generalizing seen l with
  | zero => exact absurd hlength (Nat.not_succ_le_zero _)
  | succ more ih =>
      rw [climb] at hlength hlast ⊢
      cases hup : m.nextLevel? seen l with
      | none =>
          simp only [hup, List.getLast?_singleton, Option.mem_some_iff] at hlast ⊢
          subst hlast
          exact (nextLevel?_eq_none_iff.mp hup).mono (List.subset_append_right _ _)
      | some up =>
          simp only [hup, List.length_cons, Nat.succ_le_succ_iff] at hlength hlast ⊢
          have hsome : last ∈ (m.climb more (up.definition.key :: seen) up).getLast? := by
            rw [climb_eq_cons, List.getLast?_cons_cons, ← climb_eq_cons] at hlast
            exact hlast
          refine (ih hlength hsome).mono fun k hk => ?_
          have hself : up.definition.key
              ∈ (m.climb more (up.definition.key :: seen) up).map (·.definition.key) :=
            List.mem_map_of_mem (m.mem_climb_self _ _ up)
          simp only [List.mem_append, List.mem_cons, List.map_cons] at hk ⊢
          rcases hk with hk | rfl | hk
          · exact Or.inl (Or.inr hk)
          · exact Or.inl (Or.inr hself)
          · exact Or.inr hk

/-- A chain that begins with a level and ends where none can follow, or at the limit, is
what the climb from that level finds. -/
theorem climb_eq_of_isChain {more : Nat} {rest : List Level}
    (hchain : (l :: rest).IsChain m.IsBaseOf)
    (hnew : ∀ up ∈ rest, up.definition.key ∉ seen)
    (hnodup : (rest.map (·.definition.key)).Nodup) (hlength : rest.length ≤ more)
    (hend : rest.length < more → ∀ last ∈ (l :: rest).getLast?,
      m.EndsAt (rest.map (·.definition.key) ++ seen) last) :
    m.climb more seen l = l :: rest := by
  induction rest generalizing more seen l with
  | nil =>
      cases more with
      | zero => rfl
      | succ more =>
          have hnone := nextLevel?_eq_none_iff.mpr (hend (Nat.succ_pos more) l rfl)
          rw [climb, show m.nextLevel? seen l = none from hnone]
  | cons up rest ih =>
      obtain ⟨more, rfl⟩ := Nat.exists_eq_add_one_of_ne_zero (Nat.ne_zero_of_lt hlength)
      obtain ⟨hstep, hrest⟩ := List.isChain_cons_cons.mp hchain
      rw [List.map_cons, List.nodup_cons] at hnodup
      rw [climb, hstep.nextLevel? (hnew up List.mem_cons_self)]
      refine congrArg (l :: ·) (ih hrest (fun above habove hmem => ?_) hnodup.2
        (Nat.le_of_succ_le_succ hlength) fun hless last hlast => ?_)
      · rcases List.mem_cons.mp hmem with hkey | hseen
        · exact hnodup.1 (hkey ▸ List.mem_map_of_mem habove)
        · exact hnew above (List.mem_cons_of_mem up habove) hseen
      · have hends := hend (Nat.succ_lt_succ hless) last (by rwa [List.getLast?_cons_cons])
        refine hends.mono fun k hk => ?_
        simpa [or_left_comm, or_assoc] using hk

end Module

/-! ## Parameters -/

theorem TypeRef.mentions_substitute_subset {names scope : List String} {actuals : List TypeRef}
    {t : TypeRef} (hlength : actuals.length = names.length) (ht : t.mentions ⊆ names)
    (hactuals : ∀ a ∈ actuals, a.mentions ⊆ scope) :
    (t.substitute names actuals).mentions ⊆ scope := by
  intro n hn
  rw [substitute_eq_bind] at hn
  obtain ⟨k, hk, hn⟩ := mem_mentions_bind.mp hn
  exact hactuals _ (actual_mem hlength (ht hk)) hn

/-- The base of the level's definition mentions no parameters but its own. Each of them
has an argument, and the arguments mention nothing outside of the scope. -/
structure Level.ScopedIn (scope : List String) (l : Level) : Prop where
  base : ∀ b ∈ l.definition.base, b.mentions ⊆ l.definition.paramNames
  length : l.args.length = l.definition.paramNames.length
  args : ∀ a ∈ l.args, a.mentions ⊆ scope

theorem Level.scopedIn_bottom {d : Definition}
    (h : ∀ b ∈ d.base, b.mentions ⊆ d.paramNames) :
    (Level.mk d d.ownArgs).ScopedIn d.paramNames where
  base := h
  length := by rw [Definition.ownArgs_eq, List.length_map]
  args a ha := by
    obtain ⟨p, hp, rfl⟩ := List.mem_map.mp ha
    exact List.cons_subset.mpr ⟨List.mem_map_of_mem hp, List.nil_subset _⟩

namespace Module

variable {M : Manifest} {d : Definition}

theorem scopedIn_nextLevel? {scope : List String} {seen : List (String × Nat)}
    {below up : Level} (hscoped : ∀ x ∈ M.definitions, ∀ b ∈ x.base, b.mentions ⊆ x.paramNames)
    (hbelow : below.ScopedIn scope) (hup : (ofManifest M).nextLevel? seen below = some up) :
    up.ScopedIn scope := by
  obtain ⟨base, hbase, hres, -, hargs⟩ := nextLevel?_eq_some hup
  obtain ⟨hmem, hnamed, harity⟩ := resolve_eq_some hres
  obtain ⟨b, hb, rfl⟩ := Option.map_eq_some_iff.mp hbase
  refine ⟨hscoped _ hmem, by rw [hargs, harity, Definition.paramNames_length], fun a ha n hn => ?_⟩
  refine TypeRef.mentions_substitute_subset hbelow.length (hbelow.base b hb) hbelow.args ?_
  rw [hargs] at ha
  change n ∈ (below.close b).mentions
  rw [hnamed]
  exact TypeRef.mem_mentions_named.mpr ⟨a, ha, hn⟩

/-- Where bases keep to the parameters of their definitions, the arguments of all levels
keep to the parameters of the type at the bottom. -/
theorem scopedIn_hierarchy
    (hscoped : ∀ x ∈ d :: M.definitions, ∀ b ∈ x.base, b.mentions ⊆ x.paramNames) :
    ∀ l ∈ (ofManifest M).hierarchy d, l.ScopedIn d.paramNames := by
  rw [List.forall_mem_cons] at hscoped
  exact climb_invariant (fun _ _ _ => scopedIn_nextLevel? hscoped.2)
    (Level.scopedIn_bottom hscoped.1)

/-! ## The hierarchy -/

theorem isBaseChain_hierarchy_self (M : Manifest) (d : Definition) :
    (ofManifest M).IsBaseChain d ((ofManifest M).hierarchy d) where
  start := by rw [hierarchy_eq_cons, List.head?_cons]
  steps := isChain_climb _ _ _
  distinct := nodup_keys_hierarchy _ d
  bounded := length_climb_le _ _ _ _
  maximal hless last hlast := by
    have hself : d.key ∈ ((ofManifest M).hierarchy d).map (·.definition.key) := by
      rw [hierarchy_eq_cons]
      exact List.mem_cons_self
    refine (endsAt_climb (Nat.le_of_lt_succ hless) hlast).mono fun k hk => ?_
    rcases List.mem_append.mp hk with hk | hk
    · exact hk
    · rwa [List.mem_singleton.mp hk]

theorem eq_hierarchy_of_isBaseChain {m : Module} {levels : List Level}
    (h : m.IsBaseChain d levels) : levels = m.hierarchy d := by
  obtain ⟨rest, rfl⟩ : ∃ rest, levels = ⟨d, d.ownArgs⟩ :: rest :=
    List.head?_eq_some_iff.mp h.start
  have hdistinct := h.distinct
  rw [List.map_cons, List.nodup_cons] at hdistinct
  refine (climb_eq_of_isChain h.steps (fun up hup hkey => ?_) hdistinct.2
    (Nat.le_of_succ_le_succ h.bounded) fun hless last hlast => ?_).symm
  · rw [← List.mem_singleton.mp hkey] at hdistinct
    exact hdistinct.1 (List.mem_map_of_mem hup)
  · refine (h.maximal (Nat.succ_lt_succ hless) last hlast).mono fun k hk => ?_
    simpa [or_comm] using hk

/-- **A hierarchy is the one maximal chain of bases**, also where bases lead back to
themselves. If bases mention no parameters but those of their definitions, then the
arguments of its levels mention none but those of the type. -/
theorem isBaseChain_hierarchy (M : Manifest) (d : Definition) :
    (ofManifest M).IsBaseChain d ((ofManifest M).hierarchy d)
      ∧ (∀ levels, (ofManifest M).IsBaseChain d levels → levels = (ofManifest M).hierarchy d)
      ∧ ((∀ x ∈ d :: M.definitions, ∀ b ∈ x.base, b.mentions ⊆ x.paramNames) →
          ∀ l ∈ (ofManifest M).hierarchy d, ∀ a ∈ l.args, a.mentions ⊆ d.paramNames) :=
  ⟨isBaseChain_hierarchy_self M d, fun _ => eq_hierarchy_of_isBaseChain,
    fun hscoped l hl => (scopedIn_hierarchy hscoped l hl).args⟩

/-! ## A ring -/

/-- A ring of stones is a band of rows of them. -/
def ring : Definition :=
  { box with
    name := "Ring"
    base := some (.named "Band" [.array (.param "T") 1])
    interfaces := [] }

/-- A band of stones is a ring of them. -/
def band : Definition :=
  { box with
    name := "Band"
    base := some (.named "Ring" [.param "T"])
    interfaces := [] }

def jeweler : Manifest := ⟨"Jeweler", [ring, band], [], []⟩

/-- The ring, and the band that has the stones of the ring in rows. -/
def ringLevels : List Level := [⟨ring, [.param "T"]⟩, ⟨band, [.array (.param "T") 1]⟩]

/-- There is nothing above the band, since that would be the ring again. -/
theorem ring_ends_at_band :
    (ofManifest jeweler).hierarchy ring = ringLevels
      ∧ ∀ l ∈ ringLevels, ∀ a ∈ l.args, a.mentions ⊆ ["T"] := by
  obtain ⟨-, hunique, hscoped⟩ := isBaseChain_hierarchy jeweler ring
  have hstep : (ofManifest jeweler).IsBaseOf ⟨ring, [.param "T"]⟩
      ⟨band, [.array (.param "T") 1]⟩ :=
    ⟨.named "Band" [.array (.param "T") 1], by decide, by decide, rfl, rfl⟩
  have hends : (ofManifest jeweler).EndsAt (ringLevels.map (·.definition.key))
      ⟨band, [.array (.param "T") 1]⟩ :=
    Or.inr ⟨.named "Ring" [.array (.param "T") 1], by decide,
      Or.inr ⟨ring, by decide, by decide⟩⟩
  have hlevels : ringLevels = (ofManifest jeweler).hierarchy ring := by
    refine hunique _ ⟨rfl, .cons_cons hstep (.singleton _), by decide, by decide, ?_⟩
    rintro - last ⟨⟩
    exact hends
  refine ⟨hlevels.symm, ?_⟩
  rw [hlevels]
  exact hscoped (by decide)

end Module

end ApiBaseline
