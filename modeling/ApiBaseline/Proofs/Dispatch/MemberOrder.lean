import ApiBaseline.Proofs.Classify.Explicit
import Mathlib.Algebra.Group.End

/-!
# Dispatch and the order of members

Methods are known by their positions, and of several that could fill a slot the first
one does. So the order in which a type declares its members matters, unless there is
never more than one to choose from (`Definition.HasDistinctMethods`): then the method
that fills a slot is the same one at its new position (`filler?_rearranged`), and so
is the interface that a method implements (`implemented?_rearranged`).
-/

namespace ApiBaseline

/-! ## Definitions with members in another order -/

/-- The definition `d'` has the members of `d` in another order. The member at a
position comes from the position that `origin` gives. -/
structure Definition.Rearranges (origin : Equiv.Perm Nat) (d d' : Definition) : Prop where
  outline : d' = { d with members := d'.members }
  member : ∀ i, d'.members[i]? = d.members[origin i]?

/-- No two methods of the type have a row in common, and no two of the same name have the
same return type and the same types of parameters. -/
structure Definition.HasDistinctMethods (d : Definition) : Prop where
  rows : ∀ p ∈ d.methods, ∀ q ∈ d.methods, ∀ row ∈ p.2.overrides, row ∈ q.2.overrides → p = q
  types : ∀ p ∈ d.methods, ∀ q ∈ d.methods, p.2.name = q.2.name →
    p.2.returnType = q.2.returnType → p.2.params.map (·.type) = q.2.params.map (·.type) → p = q

/-- In its own terms a type's method has the types that it is declared with. -/
theorem Definition.sameTypes_ownSignature_iff {d : Definition} {x : Method} {s : Signature} :
    (d.ownSignature x).sameTypes s = true
      ↔ x.returnType = s.returnType ∧ x.params.map (·.type) = s.paramTypes := by
  have hsubstitute : ∀ t : TypeRef, t.substitute d.paramNames d.ownArgs = t := fun t => by
    rw [ownArgs_eq, TypeRef.substitute_own]
  rw [Signature.sameTypes_iff]
  simp only [ownSignature, Method.signature, Signature.paramTypes, Parameter.shape, List.map_map,
    Function.comp_def, hsubstitute]

/-- The name and the types of a method tell which one it is. -/
theorem Definition.HasDistinctMethods.eq_of_sameTypes {d : Definition} (h : d.HasDistinctMethods)
    {p q : Nat × Method} (hp : p ∈ d.methods) (hq : q ∈ d.methods) (hname : p.2.name = q.2.name)
    {s : Signature} (hps : (d.ownSignature p.2).sameTypes s = true)
    (hqs : (d.ownSignature q.2).sameTypes s = true) : p = q := by
  obtain ⟨hreturn, hparams⟩ := sameTypes_ownSignature_iff.mp hps
  obtain ⟨hreturn', hparams'⟩ := sameTypes_ownSignature_iff.mp hqs
  exact h.types p hp q hq hname (hreturn.trans hreturn'.symm) (hparams.trans hparams'.symm)

namespace Definition.Rearranges

variable {origin : Equiv.Perm Nat} {d d' : Definition} (h : d.Rearranges origin d')

include h

theorem name : d'.name = d.name := by rw [h.outline]

theorem arity : d'.arity = d.arity := by
  rw [h.outline]
  rfl

theorem isInterface : d'.isInterface = d.isInterface := by rw [h.outline]

theorem ownArgs : d'.ownArgs = d.ownArgs := by
  rw [h.outline]
  rfl

theorem ownSignature : d'.ownSignature = d.ownSignature := by
  rw [h.outline]
  rfl

theorem mem_methods_iff {i : Nat} {x : Method} :
    (i, x) ∈ d'.methods ↔ (origin i, x) ∈ d.methods := by
  rw [mem_methods, mem_methods, h.member]

theorem exists_methods_iff (P : Method → Prop) :
    (∃ p ∈ d'.methods, P p.2) ↔ ∃ p ∈ d.methods, P p.2 := by
  constructor
  · rintro ⟨⟨i, x⟩, hx, hP⟩
    exact ⟨(origin i, x), h.mem_methods_iff.mp hx, hP⟩
  · rintro ⟨⟨i, x⟩, hx, hP⟩
    refine ⟨(origin.symm i, x), h.mem_methods_iff.mpr ?_, hP⟩
    rwa [Equiv.apply_symm_apply]

theorem hasDistinctMethods (hdistinct : d.HasDistinctMethods) : d'.HasDistinctMethods := by
  have hback : ∀ p q : Nat × Method, (origin p.1, p.2) = (origin q.1, q.2) → p = q :=
    fun p q hpq => by
      obtain ⟨hposition, hmethod⟩ := Prod.mk.inj hpq
      exact Prod.ext (origin.injective hposition) hmethod
  refine ⟨fun p hp q hq row hrow hother => hback p q ?_,
    fun p hp q hq hname hreturn hparams => hback p q ?_⟩
  · exact hdistinct.rows _ (h.mem_methods_iff.mp hp) _ (h.mem_methods_iff.mp hq) row hrow hother
  · exact hdistinct.types _ (h.mem_methods_iff.mp hp) _ (h.mem_methods_iff.mp hq) hname hreturn
      hparams

end Definition.Rearranges

/-! ## The method that fills a slot -/

namespace Level

variable {d : Definition} {declares : Bool} {i : TypeRef} {slot : InterfaceSlot} {position : Nat}

/-- Where there is no choice, a method fills a slot if it has a row for it, or if no
method has one and its types are those of the slot. -/
theorem filler?_own_eq_some_iff (hdistinct : d.HasDistinctMethods) :
    (Level.mk d d.ownArgs).filler? declares i slot = some position
      ↔ ∃ x, (position, x) ∈ d.methods
        ∧ ((Level.mk d d.ownArgs).HasRow i slot.name x
          ∨ (¬ ∃ p ∈ d.methods, (Level.mk d d.ownArgs).HasRow i slot.name p.2)
            ∧ (Level.mk d d.ownArgs).fillsImplicitly declares slot x = true) := by
  constructor
  · intro h
    obtain ⟨x, hx, hfirst | ⟨hnone, hfills⟩⟩ := filler?_eq_some h
    · exact ⟨x, hx, Or.inl hfirst.row⟩
    · exact ⟨x, hx, Or.inr ⟨fun ⟨p, hp, hrow⟩ => hnone p hp hrow, hfills⟩⟩
  · rintro ⟨x, hx, hrow | ⟨hnone, hfills⟩⟩
    · refine filler?_of_row ⟨hx, hrow, fun p hp hless hother => ?_⟩
      obtain rfl := hdistinct.rows p hp _ hx _ (Module.hasRow_own.mp hother)
        (Module.hasRow_own.mp hrow)
      exact absurd hless (Nat.lt_irrefl _)
    · have hunique : ∀ p ∈ d.methods,
          (Level.mk d d.ownArgs).fillsImplicitly declares slot p.2 = true → p = (position, x) := by
        intro p hp hother
        obtain ⟨hname, -, -, -, -, s, hs, htypes⟩ := fillsImplicitly_iff.mp hfills
        obtain ⟨hname', -, -, -, -, s', hs', htypes'⟩ := fillsImplicitly_iff.mp hother
        obtain rfl := Option.some.inj (hs.symm.trans hs')
        exact hdistinct.eq_of_sameTypes hp hx (hname'.trans hname.symm) htypes' htypes
      rw [filler?_of_no_row fun p hp hrow => hnone ⟨p, hp, hrow⟩,
        (find?_eq_some_of_unique hunique).mpr ⟨hx, hfills⟩, Option.map_some]

/-- What fills a slot is the same method at its new position. -/
theorem filler?_rearranged {origin : Equiv.Perm Nat} {d' : Definition}
    (h : d.Rearranges origin d') (hdistinct : d.HasDistinctMethods) :
    (Level.mk d' d'.ownArgs).filler? declares i slot = some position
      ↔ (Level.mk d d.ownArgs).filler? declares i slot = some (origin position) := by
  have hfills : (Level.mk d' d'.ownArgs).fillsImplicitly declares slot
      = (Level.mk d d.ownArgs).fillsImplicitly declares slot := by
    rw [h.outline]
    rfl
  have hrows := h.exists_methods_iff fun x => ⟨i, slot.name⟩ ∈ x.overrides
  rw [filler?_own_eq_some_iff (h.hasDistinctMethods hdistinct), filler?_own_eq_some_iff hdistinct]
  simp only [hfills, Module.hasRow_own, hrows]
  simp only [h.mem_methods_iff]

end Level

/-! ## Modules -/

/-- The module `m'` has the members of the type `d` in another order. What it finds is
what `f` makes of what `m` finds: `d'` instead of `d`, unless `d` is hidden behind a
definition with its name and arity. -/
structure ReordersMembers (origin : Equiv.Perm Nat) (d d' : Definition)
    (f : Definition → Definition) (m m' : Module) : Prop where
  rearranges : d.Rearranges origin d'
  sameOutline : SameOutline f m m'
  others : ∀ e, e.key ≠ d.key → f e = e
  found : ∀ e, f e = e ∨ e = d ∧ f e = d'

/-- Above the type a hierarchy depends on the outline of the type alone. -/
theorem Module.hierarchy_of_outline {m : Module} {d d' : Definition}
    (h : d' = { d with members := d'.members }) :
    m.hierarchy d' = ⟨d', d'.ownArgs⟩ :: (m.hierarchy d).drop 1 := by
  have hkey : d'.key = d.key := by
    rw [h]
    rfl
  have hnext : m.nextLevel? [d.key] ⟨d', d'.ownArgs⟩ = m.nextLevel? [d.key] ⟨d, d.ownArgs⟩ := by
    rw [h]
    rfl
  rw [hierarchy, hierarchy, hkey, show maxLevels - 1 = 62 + 1 from rfl, climb, climb, hnext]
  cases m.nextLevel? [d.key] ⟨d, d.ownArgs⟩ <;> rfl

namespace ReordersMembers

variable {origin : Equiv.Perm Nat} {d d' : Definition} {f : Definition → Definition}
  {m m' : Module} (h : ReordersMembers origin d d' f m m')

include h

theorem exists_methods_iff (e : Definition) (P : Method → Prop) :
    (∃ p ∈ (f e).methods, P p.2) ↔ ∃ p ∈ e.methods, P p.2 := by
  rcases h.found e with hsame | ⟨rfl, hnew⟩
  · rw [hsame]
  · rw [hnew, h.rearranges.exists_methods_iff]

/-- The levels above the type are the same. -/
theorem hierarchy : m'.hierarchy d' = ⟨d', d'.ownArgs⟩ :: (m.hierarchy d).drop 1 := by
  have houtline : d' = { f d with members := d'.members } := by
    rw [h.sameOutline.outline, ← h.rearranges.outline]
  have habove : ∀ l ∈ (m.hierarchy d).drop 1, l.withDefinition f = id l := fun l hl => by
    rw [Level.withDefinition, h.others _ (Module.key_ne_of_mem_drop hl)]
    rfl
  rw [Module.hierarchy_of_outline houtline,
    h.sameOutline.sameSupertypes.hierarchy (h.sameOutline.keepsOutline d), ← List.map_drop,
    List.map_congr_left habove, List.map_id]

theorem declared : Module.declared ⟨d', d'.ownArgs⟩ = Module.declared ⟨d, d.ownArgs⟩ := by
  rw [h.rearranges.outline]
  rfl

theorem declares : m'.declares ⟨d', d'.ownArgs⟩ = m.declares ⟨d, d.ownArgs⟩ := by
  funext i
  rw [Module.declares, h.declared, h.sameOutline.sameSupertypes.closure, Module.declares]

theorem allInterfaces : m'.allInterfaces d' = m.allInterfaces d := by
  rw [Module.allInterfaces, h.hierarchy, List.flatMap_cons, h.declared,
    h.sameOutline.sameSupertypes.expand, ← List.flatMap_cons, ← Module.hierarchy_eq_cons,
    Module.allInterfaces]

/-! ## Slots -/

theorem mem_slots_iff {i : TypeRef} {slot : InterfaceSlot} :
    slot ∈ m'.slots d' i ↔ slot ∈ m.slots d i := by
  unfold Module.slots
  rw [h.sameOutline.resolve]
  cases m.resolve i with
  | some known =>
      have hnames : (f known).paramNames = known.paramNames :=
        (h.sameOutline.keepsOutline known).paramNames
      simp only [Option.map_some, Module.mem_knownSlots_iff, hnames]
      exact h.exists_methods_iff known fun x =>
        x.isStatic = false ∧ slot = ⟨x.name, some (x.signature known.paramNames i.args)⟩
  | none =>
      have hrows := h.rearranges.exists_methods_iff fun x => ⟨i, slot.name⟩ ∈ x.overrides
      have hlevels := m.hierarchy_eq_cons d
      generalize (m.hierarchy d).drop 1 = above at hlevels
      simp only [Option.map_none, Module.mem_namedSlots_iff, h.hierarchy, hlevels, List.drop_one,
        List.tail_cons, List.exists_mem_cons_iff, Module.hasRow_own, hrows]

variable (hdistinct : d.HasDistinctMethods)

include hdistinct

/-- A method fills the slots that it filled at its old position. -/
theorem fills_rearranged {i : TypeRef} {slot : String} {position : Nat} :
    m'.Fills d' i slot position ↔ m.Fills d i slot (origin position) := by
  simp only [Module.Fills, Module.mem_dispatch_iff, Module.fillSlot_eq_own_iff,
    h.rearranges.isInterface, h.mem_slots_iff, h.declares,
    Level.filler?_rearranged h.rearranges hdistinct]

/-- A method implements the interface that it implemented at its old position. -/
theorem implemented?_rearranged (position : Nat) :
    (m'.interfaceTable d').implemented? position
      = (m.interfaceTable d).implemented? (origin position) := by
  rw [Module.implemented?_eq_find?, Module.implemented?_eq_find?, h.allInterfaces]
  refine congrArg (List.find? · _) (funext fun i => ?_)
  rw [Bool.eq_iff_iff, Module.any_slots_iff, Module.any_slots_iff]
  simp only [h.fills_rearranged hdistinct]

end ReordersMembers

end ApiBaseline
