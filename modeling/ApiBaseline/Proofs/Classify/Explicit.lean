import ApiBaseline.Proofs.Classify.Slots
import ApiBaseline.Proofs.Generate
import ApiBaseline.Proofs.List
import ApiBaseline.Record.Identifier

/-!
# Explicit implementations

A private method that cannot be overridden implements an interface explicitly when it
fills a slot of it. Private methods fill slots by rows only, and no level above can be
taken for the type, so the method is recognised by the rows of the type alone: it must
be the first of the methods that have the row (`fills_iff_first`). The first interface
for which it is qualifies the record's name, and its identifier bears no words of
access or modifiers (`MemberRecord.IsQualifiedBy`).

Where no two methods share a row, every row counts (`explicitInterface_iff_row`). But a
row gives a slot by its name, and the overloads of an interface share one. All of them
go to the first method with the row, and the methods that implement the others are not
recognised (`explicitInterface_overload`, `chest_hides_toy`).
-/

namespace ApiBaseline

/-! ## Tables of interfaces -/

namespace Module

variable {m : Module} {d : Definition} {i : TypeRef} {slot : String} {position : Nat}
  {x : Method}

theorem any_slots_iff : ((m.dispatch d i).slots.filter (·.target.isDeclaredBy d)).any
    (·.target.position == position) = true ↔ ∃ slot, m.Fills d i slot position := by
  simp only [List.any_eq_true, List.mem_filter, MethodHandle.isDeclaredBy, Bool.and_eq_true,
    beq_iff_eq, Fills]
  constructor
  · rintro ⟨⟨name, typeName, arity, k⟩, ⟨hmem, rfl, rfl⟩, rfl⟩
    exact ⟨name, hmem⟩
  · rintro ⟨name, hmem⟩
    exact ⟨_, ⟨hmem, rfl, rfl⟩, rfl⟩

/-- The table sends a method to the first interface of which it fills a slot. -/
theorem implemented?_eq_find? : (m.interfaceTable d).implemented? position
    = (m.allInterfaces d).find? fun i =>
        ((m.dispatch d i).slots.filter (·.target.isDeclaredBy d)).any
          (·.target.position == position) := by
  rw [InterfaceTable.implemented?, interfaceTable, lookup_flatMap]
  simp only [lookup_map_const, findSome?_ite]

theorem implemented?_eq_some_iff : (m.interfaceTable d).implemented? position = some i
    ↔ ∃ before after, m.allInterfaces d = before ++ i :: after
      ∧ (∃ slot, m.Fills d i slot position)
      ∧ ∀ j ∈ before, ¬ ∃ slot, m.Fills d j slot position := by
  simp only [implemented?_eq_find?, List.find?_eq_some_iff_append, Bool.not_eq_true',
    ← Bool.not_eq_true, any_slots_iff]
  constructor
  · rintro ⟨hi, before, after, hlist, hbefore⟩
    exact ⟨before, after, hlist, hi, hbefore⟩
  · rintro ⟨before, after, hlist, hi, hbefore⟩
    exact ⟨hi, before, after, hlist, hbefore⟩

theorem isSome_implemented?_iff : ((m.interfaceTable d).implemented? position).isSome = true
    ↔ ∃ i ∈ m.allInterfaces d, ∃ slot, m.Fills d i slot position := by
  simp only [implemented?_eq_find?, List.find?_isSome, any_slots_iff]

/-! ## Rows of private methods -/

/-- The interface has a slot with the name, as far as is known: it is opaque or has
such an instance method. -/
def HasSlot (m : Module) (i : TypeRef) (slot : String) : Prop :=
  ∀ known, m.resolve i = some known →
    ∃ p ∈ known.methods, p.2.isStatic = false ∧ p.2.name = slot

/-- A row names a slot that is looked for, unless the interface is known to have no
such slot. -/
theorem exists_slot_iff (hx : (position, x) ∈ d.methods) (hrow : ⟨i, slot⟩ ∈ x.overrides) :
    (∃ s ∈ m.slots d i, s.name = slot) ↔ m.HasSlot i slot := by
  unfold slots HasSlot
  cases m.resolve i with
  | some known =>
      simp only [Option.some.injEq, forall_eq', mem_knownSlots_iff]
      constructor
      · rintro ⟨s, ⟨p, hp, hstatic, rfl⟩, rfl⟩
        exact ⟨p, hp, hstatic, rfl⟩
      · rintro ⟨p, hp, hstatic, rfl⟩
        exact ⟨_, ⟨p, hp, hstatic, rfl⟩, rfl⟩
  | none =>
      refine iff_of_true ⟨⟨slot, none⟩, mem_namedSlots_iff.mpr ⟨rfl, ?_⟩, rfl⟩ nofun
      refine ⟨⟨d, d.ownArgs⟩, ?_, (position, x), hx, hasRow_own.mpr hrow⟩
      rw [hierarchy_eq_cons]
      exact List.mem_cons_self

end Module

/-- The method at the position is the first of the type with the row. -/
def Definition.IsFirstWithRow (d : Definition) (row : SlotRow) (position : Nat) (x : Method) :
    Prop :=
  (Level.mk d d.ownArgs).FirstWithRow row.interface row.method position x

/-- The method has the row, and no method of the type before it has. -/
theorem Definition.isFirstWithRow_iff {d : Definition} {row : SlotRow} {position : Nat}
    {x : Method} : d.IsFirstWithRow row position x ↔ (position, x) ∈ d.methods
      ∧ row ∈ x.overrides ∧ ∀ p ∈ d.methods, p.1 < position → row ∉ p.2.overrides := by
  constructor
  · rintro ⟨hx, hrow, hfirst⟩
    exact ⟨hx, Module.hasRow_own.mp hrow,
      fun p hp hless hother => hfirst p hp hless (Module.hasRow_own.mpr hother)⟩
  · rintro ⟨hx, hrow, hfirst⟩
    exact ⟨hx, Module.hasRow_own.mpr hrow,
      fun p hp hless hother => hfirst p hp hless (Module.hasRow_own.mp hother)⟩

theorem Definition.IsFirstWithRow.has {d : Definition} {row : SlotRow} {position : Nat}
    {x : Method} (h : d.IsFirstWithRow row position x) : row ∈ x.overrides :=
  (isFirstWithRow_iff.mp h).2.1

namespace Module

section

variable {m : Module} {d : Definition} {i : TypeRef} {slot : String} {position : Nat}
  {x : Method}

/-- A private method fills a slot if it is the first method with a row for it. -/
theorem fills_iff_first (hclass : d.isInterface = false) (hx : (position, x) ∈ d.methods)
    (hprivate : x.access = .private) : m.Fills d i slot position
      ↔ m.HasSlot i slot ∧ d.IsFirstWithRow ⟨i, slot⟩ position x := by
  have hpublic : x.access ≠ .public := by simp [hprivate]
  simp only [Fills, mem_dispatch_iff, hclass, true_and, fillSlot_eq_own_iff,
    Level.filler?_eq_some_of_not_public (l := ⟨d, d.ownArgs⟩) hx hpublic]
  constructor
  · rintro ⟨s, hs, rfl, hfirst⟩
    exact ⟨(exists_slot_iff hx (hasRow_own.mp hfirst.row)).mp ⟨s, hs, rfl⟩, hfirst⟩
  · rintro ⟨hslot, hfirst⟩
    obtain ⟨s, hs, rfl⟩ := (exists_slot_iff hx hfirst.has).mpr hslot
    exact ⟨s, hs, rfl, hfirst⟩

end

end Module

theorem InterfaceTable.explicit?_eq_some_iff {table : InterfaceTable} {position : Nat}
    {x : Method} {i : TypeRef} : table.explicit? position x = some i
      ↔ x.access = .private ∧ x.isFinal = true ∧ table.implemented? position = some i := by
  simp only [explicit?, Option.ite_none_right_eq_some, Bool.and_eq_true, beq_iff_eq, and_assoc]

/-! ## Qualified records -/

/-- The record bears the interface in front of its name, and its identifier begins with
the return type: there are no words of access or modifiers. -/
structure MemberRecord.IsQualifiedBy (r : MemberRecord) (i : TypeRef) (x : Method) : Prop where
  explicitInterface : r.explicitInterface = some i.canonicalName
  implementedInterface : r.implementedInterface = none
  name : r.name = i.canonicalName ++ "." ++ x.name ++ genericSuffix x.genericParams
  id : r.id = x.returnType.canonicalName ++ " " ++ r.name ++ "(" ++ r.parameterList ++ ")"
    ++ constraintClause r.constraints

namespace MemberContext

variable {c : MemberContext} {position : Nat} {x : Method} {r : MemberRecord}

theorem explicitInterface_method (hr : c.method position x = .ok r) :
    r.explicitInterface = (c.interfaces.explicit? position x).map (·.canonicalName) := by
  obtain ⟨parameters, -, hr⟩ := bind_eq_ok hr
  obtain rfl := Except.ok.inj hr
  rfl

theorem isQualifiedBy_method {i : TypeRef} (hr : c.method position x = .ok r)
    (hi : c.interfaces.explicit? position x = some i) : r.IsQualifiedBy i x := by
  obtain ⟨parameters, -, hr⟩ := bind_eq_ok hr
  obtain rfl := Except.ok.inj hr
  constructor <;> simp [methodName, MemberRecord.id, MemberRecord.methodWords,
    MemberRecord.typeText, hi]

end MemberContext

namespace Module

variable {m : Module} {d known : Definition} {i : TypeRef} {s x : Method} {position : Nat}
  {r : MemberRecord}

/-- A private and final method is recorded as an explicit implementation if and only if
it is the first of the type's methods with some row for a slot. -/
theorem isSome_explicitInterface_iff (hclass : d.isInterface = false)
    (hx : (position, x) ∈ d.methods) (hprivate : x.access = .private) (hfinal : x.isFinal = true)
    (hr : (m.memberContext d).method position x = .ok r) :
    r.explicitInterface.isSome = true ↔ ∃ i ∈ m.allInterfaces d, ∃ slot,
      m.HasSlot i slot ∧ d.IsFirstWithRow ⟨i, slot⟩ position x := by
  have hexplicit : (m.memberContext d).interfaces.explicit? position x
      = (m.interfaceTable d).implemented? position := by
    simp [InterfaceTable.explicit?, hprivate, hfinal, memberContext]
  rw [MemberContext.explicitInterface_method hr, Option.isSome_map, hexplicit]
  simp only [isSome_implemented?_iff, fills_iff_first hclass hx hprivate]

/-- Whatever is recorded as an explicit implementation is a private and final method of a
class, and the first interface of which it fills a slot qualifies it. -/
theorem exists_qualifying (hr : (m.memberContext d).method position x = .ok r)
    (hsome : r.explicitInterface.isSome = true) :
    d.isInterface = false ∧ x.access = .private ∧ x.isFinal = true
      ∧ ∃ before i after, m.allInterfaces d = before ++ i :: after
        ∧ (∃ slot, m.Fills d i slot position)
        ∧ (∀ j ∈ before, ¬ ∃ slot, m.Fills d j slot position) ∧ r.IsQualifiedBy i x := by
  rw [MemberContext.explicitInterface_method hr, Option.isSome_map] at hsome
  obtain ⟨i, hi⟩ := Option.isSome_iff_exists.mp hsome
  obtain ⟨hprivate, hfinal, htable⟩ := InterfaceTable.explicit?_eq_some_iff.mp hi
  obtain ⟨before, after, hlist, ⟨slot, hslot⟩, hbefore⟩ := implemented?_eq_some_iff.mp htable
  have hclass : d.isInterface = false := (mem_dispatch_iff.mp hslot).1
  exact ⟨hclass, hprivate, hfinal, before, i, after, hlist, ⟨slot, hslot⟩, hbefore,
    MemberContext.isQualifiedBy_method hr hi⟩

/-! ## Rows of one method each -/

/-- The method has a row for a slot of the interface. -/
def ImplementsByRow (m : Module) (x : Method) (i : TypeRef) : Prop :=
  ∃ slot, ⟨i, slot⟩ ∈ x.overrides ∧ m.HasSlot i slot

/-- **Explicit implementations are recorded exactly.** Where no two methods of a type
share a row, a method is recorded as an explicit implementation if and only if it is a
private and final method of a class with a row for a slot of an interface of the class.
The first such interface qualifies the record. -/
theorem explicitInterface_iff_row
    (hrows : ∀ p ∈ d.methods, ∀ q ∈ d.methods, ∀ row ∈ p.2.overrides,
      row ∈ q.2.overrides → p = q)
    (hx : (position, x) ∈ d.methods) (hr : (m.memberContext d).method position x = .ok r) :
    (r.explicitInterface.isSome = true
        ↔ d.isInterface = false ∧ x.access = .private ∧ x.isFinal = true
          ∧ ∃ i ∈ m.allInterfaces d, m.ImplementsByRow x i)
      ∧ (r.explicitInterface.isSome = true →
        ∃ before i after, m.allInterfaces d = before ++ i :: after ∧ m.ImplementsByRow x i
          ∧ (∀ j ∈ before, ¬ m.ImplementsByRow x j) ∧ r.IsQualifiedBy i x) := by
  have hfirst : ∀ i slot, d.IsFirstWithRow ⟨i, slot⟩ position x ↔ ⟨i, slot⟩ ∈ x.overrides := by
    refine fun i slot => ⟨fun h => h.has, fun hrow => ?_⟩
    refine Definition.isFirstWithRow_iff.mpr ⟨hx, hrow, fun p hp hless hother => ?_⟩
    obtain rfl := hrows p hp (position, x) hx _ hother hrow
    exact absurd hless (Nat.lt_irrefl _)
  have hfills : d.isInterface = false → x.access = .private → ∀ i,
      (∃ slot, m.Fills d i slot position) ↔ m.ImplementsByRow x i := by
    intro hclass hprivate i
    simp only [fills_iff_first hclass hx hprivate, hfirst, ImplementsByRow, and_comm]
  refine ⟨⟨fun hsome => ?_, ?_⟩, fun hsome => ?_⟩
  · obtain ⟨hclass, hprivate, hfinal, before, i, after, hlist, hslot, -⟩ :=
      exists_qualifying hr hsome
    exact ⟨hclass, hprivate, hfinal, i, hlist ▸ by simp, (hfills hclass hprivate i).mp hslot⟩
  · rintro ⟨hclass, hprivate, hfinal, i, hi, slot, hrow, hslot⟩
    exact (isSome_explicitInterface_iff hclass hx hprivate hfinal hr).mpr
      ⟨i, hi, slot, hslot, (hfirst i slot).mpr hrow⟩
  · obtain ⟨hclass, hprivate, -, before, i, after, hlist, hslot, hbefore, hqualified⟩ :=
      exists_qualifying hr hsome
    have hrow := hfills hclass hprivate
    exact ⟨before, i, after, hlist, (hrow i).mp hslot,
      fun j hj hother => hbefore j hj ((hrow j).mpr hother), hqualified⟩

/-- A private and final method that rows put into slots. -/
def filling (rows : List SlotRow) (x : Method) : Method :=
  { x with access := .private, isFinal := true, overrides := rows }

/-- To be cleared and to be disposed of are the same to a locker. -/
def clearLocker : Method :=
  filling [⟨.named "IDisposable" [], "Dispose"⟩, ⟨forBooks, "Clear"⟩] (clearWith [])

def locker : Definition :=
  { openClass "Locker" [] none [putBookWith "U", clearLocker] with
    interfaces := [forBooks, .named "IDisposable" []] }

def lockers : Module := .ofManifest (library [slottedShelf, locker])

/-- The shelf is declared first and qualifies the method, though the row for it is the
second. -/
theorem locker_clears_shelf :
    ∃ r, (lockers.memberContext locker).method 1 clearLocker = .ok r
      ∧ r.IsQualifiedBy forBooks clearLocker := by
  have hinterfaces : lockers.allInterfaces locker = [forBooks, .named "IDisposable" []] :=
    foldl_expand_of_parents (by decide) (by decide)
  have hshelf : lockers.ImplementsByRow clearLocker forBooks := by
    refine ⟨"Clear", by decide, fun known hknown => ?_⟩
    have hresolves : lockers.resolve forBooks = some slottedShelf := by decide
    obtain rfl := Option.some.inj (hresolves.symm.trans hknown)
    exact ⟨(1, clearWith []), by decide, rfl, rfl⟩
  obtain ⟨r, hr⟩ : ∃ r, (lockers.memberContext locker).method 1 clearLocker = .ok r := ⟨_, rfl⟩
  obtain ⟨hiff, hfirst⟩ := explicitInterface_iff_row (by decide) (by decide) hr
  have hsome := hiff.mpr ⟨rfl, rfl, rfl, forBooks, hinterfaces ▸ by simp, hshelf⟩
  obtain ⟨before, i, after, hlist, -, hbefore, hqualified⟩ := hfirst hsome
  refine ⟨r, hr, ?_⟩
  rw [hinterfaces] at hlist
  cases before with
  | nil =>
      obtain ⟨rfl, -⟩ := List.cons.inj hlist
      exact hqualified
  | cons j before =>
      obtain ⟨rfl, -⟩ := List.cons.inj hlist
      exact absurd hshelf (hbefore _ List.mem_cons_self)

/-! ## Overloads -/

/-- The class `d` implements the interface `i`, which has the definition `known` and in
it the instance method `s`. The private and final method `x` at the position has a row
with the name of `s` and the types of `s`, neither is generic, and no other method of
`d` with the row has these types. -/
structure Overload (m : Module) (d : Definition) (i : TypeRef) (known : Definition)
    (s x : Method) (position : Nat) : Prop where
  isClass : d.isInterface = false
  finite : (m.interfaceClosure d).Finite
  implemented : i ∈ m.allInterfaces d
  resolves : m.resolve i = some known
  slot : ∃ j, (j, s) ∈ known.methods
  slotIsInstance : s.isStatic = false
  slotIsPlain : s.genericParams = []
  method : (position, x) ∈ d.methods
  isPrivate : x.access = .private
  isFinal : x.isFinal = true
  isPlain : x.genericParams = []
  row : ⟨i, s.name⟩ ∈ x.overrides
  types : (d.ownSignature x).sameTypes ((Level.ofRef known i).signature s) = true
  onlyOverload : ∀ p ∈ d.methods, ⟨i, s.name⟩ ∈ p.2.overrides →
    (d.ownSignature p.2).sameTypes (d.ownSignature x) = true → p = (position, x)

theorem Overload.hasSlot (h : m.Overload d i known s x position) : m.HasSlot i s.name := by
  intro known' hknown'
  obtain rfl := Option.some.inj (h.resolves.symm.trans hknown')
  obtain ⟨j, hj⟩ := h.slot
  exact ⟨(j, s), hj, h.slotIsInstance, rfl⟩

/-- All the slots of a name go to the first of the methods with a row for it. -/
theorem Overload.exists_first (h : m.Overload d i known s x position) :
    ∃ p ∈ d.methods, d.IsFirstWithRow ⟨i, s.name⟩ p.1 p.2
      ∧ ∀ slot ∈ m.slots d i, slot.name = s.name →
        m.fillSlot d i slot = some ⟨d.name, d.arity, p.1⟩ := by
  rcases (Level.mk d d.ownArgs).firstWithRow_or_none i s.name with ⟨k, y, hy⟩ | hnone
  · refine ⟨(k, y), hy.method, hy, fun slot _ hname => ?_⟩
    exact fillSlot_eq_own_iff.mpr (Level.filler?_of_row (hname ▸ hy))
  · exact absurd (hasRow_own.mpr h.row) (hnone _ h.method)

/-- **Of overloads that are implemented by rows, the first counts.** A method that
implements an overload explicitly is recorded so if and only if it is the first with
some row for a slot; then an interface qualifies it. To be the first with the row for
the overload suffices, and where it is the only row of the method, it must be. All the
overloads are taken to be implemented by that first method. -/
theorem explicitInterface_overload (h : m.Overload d i known s x position)
    (hr : (m.memberContext d).method position x = .ok r) :
    (r.explicitInterface.isSome = true
        ↔ ∃ j ∈ m.allInterfaces d, ∃ slot,
          m.HasSlot j slot ∧ d.IsFirstWithRow ⟨j, slot⟩ position x)
      ∧ (r.explicitInterface.isSome = true → ∃ j ∈ m.allInterfaces d, r.IsQualifiedBy j x)
      ∧ (d.IsFirstWithRow ⟨i, s.name⟩ position x → r.explicitInterface.isSome = true)
      ∧ (x.overrides = [⟨i, s.name⟩] →
        (r.explicitInterface.isSome = true ↔ d.IsFirstWithRow ⟨i, s.name⟩ position x))
      ∧ ∃ p ∈ d.methods, d.IsFirstWithRow ⟨i, s.name⟩ p.1 p.2
        ∧ ∀ slot ∈ m.slots d i, slot.name = s.name →
          m.fillSlot d i slot = some ⟨d.name, d.arity, p.1⟩ := by
  have hiff := isSome_explicitInterface_iff h.isClass h.method h.isPrivate h.isFinal hr
  have hrecorded : d.IsFirstWithRow ⟨i, s.name⟩ position x → r.explicitInterface.isSome = true :=
    fun hfirst => hiff.mpr ⟨i, h.implemented, s.name, h.hasSlot, hfirst⟩
  refine ⟨hiff, fun hsome => ?_, hrecorded, fun honly => ⟨fun hsome => ?_, hrecorded⟩,
    h.exists_first⟩
  · obtain ⟨-, -, -, before, j, after, hlist, -, -, hqualified⟩ := exists_qualifying hr hsome
    exact ⟨j, hlist ▸ by simp, hqualified⟩
  · obtain ⟨j, -, slot, -, hfirst⟩ := hiff.mp hsome
    have hrow := hfirst.has
    rw [honly, List.mem_singleton] at hrow
    rwa [hrow] at hfirst

/-! ## A chest for books and toys -/

def putOne (item : String) : Method := virtualMethod true [] [.named item []]

def bin : Definition :=
  { openClass "IBin" [] none [putOne "Book", putOne "Toy"] with isInterface := true }

/-- The method of a chest that puts an item into the bin. -/
def putInto (item : String) : Method := filling [⟨.named "IBin" [], "Put"⟩] (putOne item)

def chest : Definition :=
  { openClass "Chest" [] none [putInto "Book", putInto "Toy"] with
    interfaces := [.named "IBin" []] }

def chests : Module := .ofManifest (library [bin, chest])

theorem allInterfaces_chest : chests.allInterfaces chest = [.named "IBin" []] :=
  foldl_expand_of_parents (by decide) (by decide)

/-- Each method of the chest implements its overload of the bin. -/
theorem overload_chest {item : String} {k : Nat} (h : (k, item) ∈ [(0, "Book"), (1, "Toy")]) :
    chests.Overload chest (.named "IBin" []) bin (putOne item) (putInto item) k := by
  have hitems : k = 0 ∧ item = "Book" ∨ k = 1 ∧ item = "Toy" := by simpa using h
  have hslot : (k, putOne item) ∈ bin.methods := by
    rcases hitems with ⟨rfl, rfl⟩ | ⟨rfl, rfl⟩ <;> decide
  have hfinite : (chests.interfaceClosure chest).Finite :=
    interfaceClosure_finite [.named "IBin" []] (by decide) (by decide)
  have himplemented : .named "IBin" [] ∈ chests.allInterfaces chest :=
    allInterfaces_chest ▸ List.mem_cons_self
  rcases hitems with ⟨rfl, rfl⟩ | ⟨rfl, rfl⟩ <;>
  exact
    { isClass := rfl
      finite := hfinite
      implemented := himplemented
      resolves := by decide
      slot := ⟨_, hslot⟩
      slotIsInstance := rfl
      slotIsPlain := rfl
      method := by decide
      isPrivate := rfl
      isFinal := rfl
      isPlain := rfl
      row := List.mem_cons_self
      types := by decide
      onlyOverload := by decide }

/-- The method for books is recorded as an explicit implementation. -/
theorem chest_takes_book :
    chests.Overload chest (.named "IBin" []) bin (putOne "Book") (putInto "Book") 0
      ∧ ∃ r, (chests.memberContext chest).method 0 (putInto "Book") = .ok r
        ∧ r.IsQualifiedBy (.named "IBin" []) (putInto "Book") := by
  have h : chests.Overload chest (.named "IBin" []) bin (putOne "Book") (putInto "Book") 0 :=
    overload_chest (by decide)
  obtain ⟨r, hr⟩ : ∃ r, (chests.memberContext chest).method 0 (putInto "Book") = .ok r := ⟨_, rfl⟩
  obtain ⟨-, hqualified, hrecorded, -⟩ := explicitInterface_overload h hr
  have hfirst : chest.IsFirstWithRow ⟨.named "IBin" [], "Put"⟩ 0 (putInto "Book") :=
    Definition.isFirstWithRow_iff.mpr
      ⟨h.method, List.mem_cons_self, fun _ _ hless => absurd hless (Nat.not_lt_zero _)⟩
  obtain ⟨j, hj, hbook⟩ := hqualified (hrecorded hfirst)
  rw [allInterfaces_chest, List.mem_singleton] at hj
  exact ⟨h, r, hr, hj ▸ hbook⟩

/-- The method for toys implements its overload in the same way and is not recorded so. -/
theorem chest_hides_toy :
    chests.Overload chest (.named "IBin" []) bin (putOne "Toy") (putInto "Toy") 1
      ∧ ∃ r, (chests.memberContext chest).method 1 (putInto "Toy") = .ok r
        ∧ r.explicitInterface = none := by
  have h : chests.Overload chest (.named "IBin" []) bin (putOne "Toy") (putInto "Toy") 1 :=
    overload_chest (by decide)
  obtain ⟨r, hr⟩ : ∃ r, (chests.memberContext chest).method 1 (putInto "Toy") = .ok r := ⟨_, rfl⟩
  refine ⟨h, r, hr, ?_⟩
  have hiff := isSome_explicitInterface_iff h.isClass h.method h.isPrivate h.isFinal hr
  rw [← Option.not_isSome_iff_eq_none, hiff]
  rintro ⟨j, -, slot, -, hown⟩
  obtain ⟨-, hrow, hfirst⟩ := Definition.isFirstWithRow_iff.mp hown
  -- It has no row but the one of the method for books.
  exact hfirst (0, putInto "Book") (by decide) (by decide) hrow

end Module

end ApiBaseline
