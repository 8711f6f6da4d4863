import ApiBaseline.Proofs.List
import ApiBaseline.Proofs.Metadata.Expansion
import ApiBaseline.Proofs.Metadata.References

/-!
# The method that fills a slot

On one level rows go before types: if any method of the level has a row for the slot,
the first of these fills it, whatever its types (`filler?_of_row`), and only if there
is none, the first method that fills it by its types (`filler?_of_no_row`). Along the
hierarchy the first level with a filler counts (`fillSlot_eq_some`), and as no level
above bears the name and arity of the type, a slot goes to a method of the type itself
if and only if the lowest level fills it (`fillSlot_eq_own_iff`).
-/

namespace ApiBaseline

/-! ## Methods and their positions -/

/-- Methods stand in the order of their positions. -/
theorem Definition.pairwise_methods (d : Definition) :
    d.methods.Pairwise fun p q => p.1 < q.1 := by
  refine (pairwise_zipIdx d.members).filterMap _ fun p q hpq x hx y hy => ?_
  obtain ⟨_, -, rfl⟩ := Option.map_eq_some_iff.mp hx
  obtain ⟨_, -, rfl⟩ := Option.map_eq_some_iff.mp hy
  exact hpq

theorem Definition.method_unique {d : Definition} {position : Nat} {x y : Method}
    (hx : (position, x) ∈ d.methods) (hy : (position, y) ∈ d.methods) : x = y := by
  rw [mem_methods] at hx hy
  simpa using hx.symm.trans hy

/-! ## One level -/

theorem Signature.sameTypes_iff {s t : Signature} :
    s.sameTypes t = true ↔ s.returnType = t.returnType ∧ s.paramTypes = t.paramTypes := by
  rw [sameTypes, Bool.and_eq_true, beq_iff_eq, beq_iff_eq]

namespace Level

/-- The method has a row for a slot of the interface, in the terms of the bottom
type. -/
def HasRow (l : Level) (i : TypeRef) (slot : String) (x : Method) : Prop :=
  ∃ row ∈ x.overrides, row.method = slot ∧ l.close row.interface = i

/-- The method at the position is the first of the level with a row for the slot. -/
structure FirstWithRow (l : Level) (i : TypeRef) (slot : String) (position : Nat)
    (x : Method) : Prop where
  method : (position, x) ∈ l.definition.methods
  row : l.HasRow i slot x
  first : ∀ p ∈ l.definition.methods, p.1 < position → ¬ l.HasRow i slot p.2

variable {l : Level} {declares : Bool} {i : TypeRef} {slot : InterfaceSlot} {name : String}
  {position : Nat} {x : Method}

theorem fillsExplicitly_iff : l.fillsExplicitly i name x = true ↔ l.HasRow i name x := by
  simp only [fillsExplicitly, List.any_eq_true, Bool.and_eq_true, beq_iff_eq, HasRow]

theorem fillsExplicitly_eq_false_iff :
    l.fillsExplicitly i name x = false ↔ ¬ l.HasRow i name x := by
  rw [← fillsExplicitly_iff, Bool.not_eq_true]

/-- What lets a method fill a slot without a row. -/
theorem fillsImplicitly_iff : l.fillsImplicitly declares slot x = true
    ↔ x.name = slot.name ∧ x.access = .public ∧ x.isVirtual = true ∧ x.isStatic = false
      ∧ (declares = true ∨ x.isNewSlot = false)
      ∧ ∃ s, slot.signature = some s ∧ (l.signature x).sameTypes s = true := by
  unfold fillsImplicitly
  cases slot.signature with
  | none => simp
  | some s =>
      simp only [Bool.and_eq_true, beq_iff_eq, Bool.or_eq_true, Bool.not_eq_true', and_assoc,
        Option.some.injEq, exists_eq_left']

theorem find?_fillsExplicitly :
    l.definition.methods.find? (fun p => l.fillsExplicitly i name p.2) = some (position, x)
      ↔ l.FirstWithRow i name position x := by
  rw [find?_eq_some_iff_least l.definition.pairwise_methods]
  simp only [fillsExplicitly_iff, fillsExplicitly_eq_false_iff]
  exact ⟨fun ⟨h₁, h₂, h₃⟩ => ⟨h₁, h₂, h₃⟩, fun h => ⟨h.method, h.row, h.first⟩⟩

/-- Either some method of the level is the first with a row for the slot, or none has
one. -/
theorem firstWithRow_or_none (l : Level) (i : TypeRef) (name : String) :
    (∃ position x, l.FirstWithRow i name position x)
      ∨ ∀ p ∈ l.definition.methods, ¬ l.HasRow i name p.2 := by
  cases hrow : l.definition.methods.find? (fun p => l.fillsExplicitly i name p.2) with
  | some p => exact Or.inl ⟨p.1, p.2, find?_fillsExplicitly.mp hrow⟩
  | none =>
      refine Or.inr fun p hp => ?_
      simpa [fillsExplicitly_iff] using List.find?_eq_none.mp hrow p hp

/-- The first method with a row fills the slot. -/
theorem filler?_of_row (h : l.FirstWithRow i slot.name position x) :
    l.filler? declares i slot = some position := by
  have hfind := find?_fillsExplicitly.mpr h
  simp only [filler?, hfind]

/-- Without a row the first method does that fills the slot by its types. -/
theorem filler?_of_no_row (h : ∀ p ∈ l.definition.methods, ¬ l.HasRow i slot.name p.2) :
    l.filler? declares i slot
      = (l.definition.methods.find? fun p => l.fillsImplicitly declares slot p.2).map (·.1) := by
  have hfind : l.definition.methods.find? (fun p => l.fillsExplicitly i slot.name p.2) = none :=
    List.find?_eq_none.mpr fun p hp => by simpa [fillsExplicitly_iff] using h p hp
  simp only [filler?, hfind]

/-- What fills a slot is the first method with a row for it, or else a method that
fills it by its types, and then no method has a row. -/
theorem filler?_eq_some (h : l.filler? declares i slot = some position) :
    ∃ x, (position, x) ∈ l.definition.methods
      ∧ (l.FirstWithRow i slot.name position x
        ∨ (∀ p ∈ l.definition.methods, ¬ l.HasRow i slot.name p.2)
          ∧ l.fillsImplicitly declares slot x = true) := by
  rcases l.firstWithRow_or_none i slot.name with ⟨k, x, hx⟩ | hnone
  · rw [filler?_of_row hx] at h
    obtain rfl := Option.some.inj h
    exact ⟨x, hx.method, Or.inl hx⟩
  · rw [filler?_of_no_row hnone] at h
    obtain ⟨p, hp, rfl⟩ := Option.map_eq_some_iff.mp h
    have hfills := List.find?_some hp
    exact ⟨p.2, List.mem_of_find?_eq_some hp, Or.inr ⟨hnone, hfills⟩⟩

/-- A level leaves a slot open if none of its methods has a row for it or fills it by
its types. -/
theorem filler?_eq_none_iff : l.filler? declares i slot = none
    ↔ ∀ p ∈ l.definition.methods, ¬ l.HasRow i slot.name p.2
      ∧ l.fillsImplicitly declares slot p.2 = false := by
  rcases l.firstWithRow_or_none i slot.name with ⟨k, x, hx⟩ | hnone
  · rw [filler?_of_row hx]
    exact iff_of_false (Option.some_ne_none k) fun h => (h _ hx.method).1 hx.row
  · rw [filler?_of_no_row hnone, Option.map_eq_none_iff, List.find?_eq_none]
    exact forall₂_congr fun p hp => by simp [hnone p hp]

/-- A method that is not public fills a slot only if it is the first with a row. -/
theorem filler?_eq_some_of_not_public (hx : (position, x) ∈ l.definition.methods)
    (hpublic : x.access ≠ .public) :
    l.filler? declares i slot = some position ↔ l.FirstWithRow i slot.name position x := by
  refine ⟨fun h => ?_, filler?_of_row⟩
  obtain ⟨y, hy, hfirst | ⟨-, hfills⟩⟩ := filler?_eq_some h
  · rwa [Definition.method_unique hx hy]
  · obtain rfl := Definition.method_unique hx hy
    exact absurd (fillsImplicitly_iff.mp hfills).2.1 hpublic

end Level

/-! ## The levels of a hierarchy -/

namespace Module

variable {m : Module} {d known : Definition} {i : TypeRef} {slot : InterfaceSlot}
  {position : Nat}

theorem close_own (d : Definition) (t : TypeRef) : (Level.mk d d.ownArgs).close t = t := by
  rw [Level.close, Definition.ownArgs_eq, TypeRef.substitute_own]

/-- A type's own rows are read as they stand. -/
theorem hasRow_own {slot : String} {x : Method} :
    (Level.mk d d.ownArgs).HasRow i slot x ↔ ⟨i, slot⟩ ∈ x.overrides := by
  simp only [Level.HasRow, close_own]
  constructor
  · rintro ⟨row, hrow, rfl, rfl⟩
    exact hrow
  · exact fun h => ⟨_, h, rfl, rfl⟩

/-- The first level that has a filler fills the slot. -/
theorem fillSlot_eq_some {handle : MethodHandle} (h : m.fillSlot d i slot = some handle) :
    ∃ below l above, m.hierarchy d = below ++ l :: above
      ∧ (∃ position, l.filler? (m.declares l i) i slot = some position
          ∧ handle = l.handle position)
      ∧ ∀ low ∈ below, low.filler? (m.declares low i) i slot = none := by
  obtain ⟨below, l, above, hlevels, hfill, hbelow⟩ := List.findSome?_eq_some_iff.mp h
  obtain ⟨position, hposition, rfl⟩ := Option.map_eq_some_iff.mp hfill
  exact ⟨below, l, above, hlevels, ⟨position, hposition, rfl⟩,
    fun low hlow => Option.map_eq_none_iff.mp (hbelow low hlow)⟩

theorem fillSlot_eq_none_iff : m.fillSlot d i slot = none
    ↔ ∀ l ∈ m.hierarchy d, l.filler? (m.declares l i) i slot = none := by
  simp only [fillSlot, List.findSome?_eq_none_iff, Option.map_eq_none_iff]

/-- A slot goes to a method of the type itself if the lowest level fills it. -/
theorem fillSlot_eq_own_iff :
    m.fillSlot d i slot = some ⟨d.name, d.arity, position⟩
      ↔ (Level.mk d d.ownArgs).filler? (m.declares ⟨d, d.ownArgs⟩ i) i slot
          = some position := by
  rw [fillSlot, hierarchy_eq_cons, List.findSome?_cons]
  cases hown : (Level.mk d d.ownArgs).filler? (m.declares ⟨d, d.ownArgs⟩ i) i slot with
  | some k => simp [Level.handle]
  | none =>
      -- A level above would have to bear the type's name and arity.
      refine iff_of_false (fun habove => ?_) (Option.some_ne_none _).symm
      obtain ⟨l, hl, hfill⟩ := List.exists_of_findSome?_eq_some habove
      obtain ⟨k, -, hhandle⟩ := Option.map_eq_some_iff.mp hfill
      obtain ⟨hname, harity, -⟩ := MethodHandle.mk.inj hhandle
      exact key_ne_of_mem_drop hl (Prod.ext hname harity)

/-! ## Dispatch maps -/

theorem mem_knownSlots_iff : slot ∈ knownSlots i known ↔ ∃ p ∈ known.methods,
    p.2.isStatic = false ∧ slot = ⟨p.2.name, some (p.2.signature known.paramNames i.args)⟩ := by
  simp only [knownSlots, List.mem_map, List.mem_filter, Bool.not_eq_true', and_assoc,
    @eq_comm _ slot]

/-- The slots of an opaque interface are those that rows name. -/
theorem mem_namedSlots_iff {levels : List Level} : slot ∈ namedSlots levels i
    ↔ slot.signature = none
      ∧ ∃ l ∈ levels, ∃ p ∈ l.definition.methods, l.HasRow i slot.name p.2 := by
  simp only [namedSlots, List.mem_map, List.mem_eraseDups, List.mem_flatMap, List.mem_filter,
    beq_iff_eq, Level.HasRow]
  constructor
  · rintro ⟨name, ⟨row, ⟨l, hl, p, hp, hrow, hi⟩, rfl⟩, rfl⟩
    exact ⟨rfl, l, hl, p, hp, row, hrow, rfl, hi⟩
  · rintro ⟨hsignature, l, hl, p, hp, row, hrow, hname, hi⟩
    exact ⟨slot.name, ⟨row, ⟨l, hl, p, hp, hrow, hi⟩, hname⟩, by rw [← hsignature]⟩

theorem mem_dispatch_iff {s : FilledSlot} : s ∈ (m.dispatch d i).slots
    ↔ d.isInterface = false
      ∧ ∃ slot ∈ m.slots d i, slot.name = s.name ∧ m.fillSlot d i slot = some s.target := by
  unfold dispatch
  cases d.isInterface with
  | true => simp
  | false =>
      simp only [Bool.false_eq_true, if_false, List.mem_filterMap, Option.map_eq_some_iff, true_and]
      constructor
      · rintro ⟨slot, hslot, target, htarget, rfl⟩
        exact ⟨slot, hslot, rfl, htarget⟩
      · rintro ⟨slot, hslot, hname, htarget⟩
        exact ⟨slot, hslot, s.target, htarget, by rw [hname]⟩

end Module

end ApiBaseline
