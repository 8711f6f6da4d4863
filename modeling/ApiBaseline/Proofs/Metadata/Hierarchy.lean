import ApiBaseline.Metadata.Hierarchy
import ApiBaseline.Proofs.List

/-!
# Steps of a hierarchy

Each level of a hierarchy but the first is what the base of the level below
points at (`nextLevel?_eq_some`), and the climb goes on as long as there is such
a level that has not been seen. The limit on levels shows only in hierarchies
that reach it (`climb_eq_of_length`).
-/

namespace ApiBaseline

/-! ## Levels -/

namespace Module

/-- The level above a level comes from its base. -/
theorem nextLevel?_eq_some {m : Module} {seen : List (String × Nat)} {l up : Level}
    (h : m.nextLevel? seen l = some up) :
    ∃ base, l.base? = some base ∧ m.resolve base = some up.definition
      ∧ up.definition.key ∉ seen ∧ up.args = base.args := by
  unfold nextLevel? at h
  cases hbase : l.base? with
  | none => simp [hbase] at h
  | some base =>
      cases hres : m.resolve base with
      | none => simp [hbase, hres] at h
      | some d =>
          simp only [hbase, hres] at h
          split at h
          · exact absurd h nofun
          · obtain rfl := Option.some.inj h
            exact ⟨base, rfl, hres, by assumption, rfl⟩

/-- A base with a definition that has not been seen is the next level. -/
theorem nextLevel?_of_resolve {m : Module} {seen : List (String × Nat)} {l : Level}
    {base : TypeRef} {d : Definition} (hbase : l.base? = some base)
    (hres : m.resolve base = some d) (hnew : d.key ∉ seen) :
    m.nextLevel? seen l = some ⟨d, base.args⟩ := by
  simp [nextLevel?, hbase, hres, hnew]

/-- A climb begins at its level. -/
theorem climb_eq_cons (m : Module) (more : Nat) (seen : List (String × Nat)) (l : Level) :
    m.climb more seen l = l :: (m.climb more seen l).drop 1 := by
  cases more with
  | zero => rfl
  | succ more =>
      rw [climb]
      split <;> rfl

theorem mem_climb_self (m : Module) (more : Nat) (seen : List (String × Nat)) (l : Level) :
    l ∈ m.climb more seen l := by
  rw [climb_eq_cons]
  exact List.mem_cons_self

/-- A hierarchy begins with the type itself. -/
theorem hierarchy_eq_cons (m : Module) (d : Definition) :
    m.hierarchy d = ⟨d, d.ownArgs⟩ :: (m.hierarchy d).drop 1 :=
  climb_eq_cons m (maxLevels - 1) [d.key] ⟨d, d.ownArgs⟩

/-- What holds of the first level and of each level above one of which it holds
holds of all of them. -/
theorem climb_invariant {m : Module} {P : Level → Prop}
    (hstep : ∀ seen below up, P below → m.nextLevel? seen below = some up → P up) {more : Nat}
    {seen : List (String × Nat)} {l : Level} (hl : P l) : ∀ up ∈ m.climb more seen l, P up := by
  induction more generalizing seen l with
  | zero => simpa [climb] using hl
  | succ more ih =>
      cases hnext : m.nextLevel? seen l with
      | none => simpa [climb, hnext] using hl
      | some next =>
          simp only [climb, hnext, List.forall_mem_cons]
          exact ⟨hl, ih (hstep seen l next hl hnext)⟩

/-- Every level but the first one stands above another one. -/
theorem exists_below {m : Module} {more : Nat} {seen : List (String × Nat)} {l up : Level}
    (h : up ∈ (m.climb more seen l).drop 1) : ∃ below ∈ m.climb more seen l, ∃ seen',
      seen ⊆ seen' ∧ m.nextLevel? seen' below = some up := by
  induction more generalizing seen l with
  | zero => exact absurd h List.not_mem_nil
  | succ more ih =>
      cases hnext : m.nextLevel? seen l with
      | none => simp [climb, hnext] at h
      | some next =>
          simp only [climb, hnext, List.drop_one, List.tail_cons] at h ⊢
          rw [climb_eq_cons] at h
          rcases List.mem_cons.mp h with rfl | h
          · exact ⟨l, List.mem_cons_self, seen, List.Subset.refl _, hnext⟩
          · obtain ⟨below, hbelow, seen', hseen, hup⟩ := ih h
            exact ⟨below, List.mem_cons_of_mem _ hbelow, seen',
              fun k hk => hseen (List.mem_cons_of_mem _ hk), hup⟩

theorem nodup_keys_climb {m : Module} {more : Nat} {seen : List (String × Nat)} {l : Level}
    (h : l.definition.key ∈ seen) : ((m.climb more seen l).map (·.definition.key)).Nodup := by
  induction more generalizing seen l with
  | zero => simp [climb]
  | succ more ih =>
      cases hnext : m.nextLevel? seen l with
      | none => simp [climb, hnext]
      | some next =>
          simp only [climb, hnext, List.map_cons]
          refine List.nodup_cons.mpr ⟨fun hmem => ?_, ih List.mem_cons_self⟩
          obtain ⟨up, hup, hkey⟩ := List.mem_map.mp hmem
          have habove : up ∈ (m.climb (more + 1) seen l).drop 1 := by
            simpa [climb, hnext] using hup
          obtain ⟨below, -, seen', hseen, hstep⟩ := exists_below habove
          obtain ⟨-, -, -, hnew, -⟩ := nextLevel?_eq_some hstep
          exact hnew (hseen (hkey ▸ h))

/-- A hierarchy holds no name and arity twice. -/
theorem nodup_keys_hierarchy (m : Module) (d : Definition) :
    ((m.hierarchy d).map (·.definition.key)).Nodup :=
  nodup_keys_climb List.mem_cons_self

/-- No type above has the type's name and arity. -/
theorem key_ne_of_mem_drop {m : Module} {d : Definition} {l : Level}
    (hl : l ∈ (m.hierarchy d).drop 1) : l.definition.key ≠ d.key := by
  have hkeys := m.nodup_keys_hierarchy d
  rw [hierarchy_eq_cons, List.map_cons, List.nodup_cons] at hkeys
  exact fun hkey => hkeys.1 (List.mem_map.mpr ⟨l, hl, hkey⟩)

/-- A type does not stand above itself. -/
theorem ne_definition_of_mem_drop {m : Module} {d : Definition} {l : Level}
    (hl : l ∈ (m.hierarchy d).drop 1) : d ≠ l.definition := fun hdef =>
  key_ne_of_mem_drop hl (congrArg Definition.key hdef.symm)

/-- One more name and arity seen is one more that the next level must not have. -/
theorem nextLevel?_append (m : Module) (seen : List (String × Nat)) (below : String × Nat)
    (l : Level) : m.nextLevel? (seen ++ [below]) l
      = (m.nextLevel? seen l).filter fun up => up.definition.key ≠ below := by
  unfold nextLevel?
  cases l.base? with
  | none => rfl
  | some base =>
      cases hres : m.resolve base with
      | none => simp [hres]
      | some d =>
          simp only [hres, List.mem_append, List.mem_singleton]
          by_cases hseen : d.key ∈ seen
          · simp [hseen]
          · simp only [hseen, false_or, if_false, Option.filter_some]
            by_cases hbelow : d.key = below <;> simp [hbelow]

/-- A name and arity that does not occur in a hierarchy cuts nothing off it. -/
theorem climb_append_seen {m : Module} {more : Nat} {seen : List (String × Nat)} {l : Level}
    {below : String × Nat} (h : below ∉ (m.climb more seen l).map (·.definition.key)) :
    m.climb more (seen ++ [below]) l = m.climb more seen l := by
  induction more generalizing seen l with
  | zero => rfl
  | succ more ih =>
      rw [climb, nextLevel?_append, climb]
      cases hup : m.nextLevel? seen l with
      | none => rfl
      | some up =>
          rw [climb, hup, List.map_cons, List.mem_cons, not_or] at h
          have hne : up.definition.key ≠ below := fun hkey =>
            h.2 (hkey ▸ List.mem_map_of_mem (m.mem_climb_self _ _ up))
          simp only [Option.filter_some, hne, ne_eq, not_false_eq_true, decide_true, if_true]
          rw [← List.cons_append, ih h.2]

/-- A hierarchy that ends before the limit does not depend on it. -/
theorem climb_eq_of_length {m : Module} {more : Nat} {seen : List (String × Nat)} {l : Level}
    (h : (m.climb (more + 1) seen l).length ≤ more + 1) :
    m.climb more seen l = m.climb (more + 1) seen l := by
  induction more generalizing seen l with
  | zero =>
      cases hup : m.nextLevel? seen l with
      | none => simp [climb, hup]
      | some up => simp [climb, hup] at h
  | succ more ih =>
      cases hup : m.nextLevel? seen l with
      | none => simp [climb, hup]
      | some up =>
          rw [climb, hup] at h ⊢
          rw [climb, hup]
          have hrest := ih (Nat.le_of_succ_le_succ h)
          simp only [hrest]

end Module

end ApiBaseline
