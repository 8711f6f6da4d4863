import ApiBaseline.Proofs.Classify.Closed
import ApiBaseline.Proofs.Metadata.Supertypes

/-!
# Methods that take part in no dispatch

A method that is not virtual and has no rows fills no slot, names none and
offers none. A level that gains such methods, and has the same closed form
otherwise (`Level.GainsIdle`), fills and offers the same slots as before; only the
methods visible by name can tell the difference. Gained methods stand behind the
others, so positions do not shift.
-/

namespace ApiBaseline

/-- The method is not virtual and names no slot. -/
structure Method.IsIdle (x : Method) : Prop where
  isVirtual : x.isVirtual = false
  overrides : x.overrides = []

/-- The corresponding level has the same methods in closed form, and idle methods
behind them or none. -/
def Level.GainsIdle (f : Definition → Definition) (l : Level) : Prop :=
  ∃ extra, (l.withDefinition f).closed.definition.methods
      = l.closed.definition.methods ++ extra ∧ ∀ p ∈ extra, p.2.IsIdle

/-! ## Lists with something behind them that does not count -/

theorem find?_append_of_false {α : Type} {p : α → Bool} {xs ys : List α}
    (h : ∀ y ∈ ys, p y = false) : (xs ++ ys).find? p = xs.find? p := by
  have hnone : ys.find? p = none :=
    List.find?_eq_none.mpr fun y hy => by simp [h y hy]
  rw [List.find?_append, hnone, Option.or_none]

theorem any_append_of_false {α : Type} {p : α → Bool} {xs ys : List α}
    (h : ∀ y ∈ ys, p y = false) : (xs ++ ys).any p = xs.any p := by
  have hfalse : ys.any p = false := List.any_eq_false.mpr fun y hy => by simp [h y hy]
  rw [List.any_append, hfalse, Bool.or_false]

theorem flatMap_append_of_nil {α β : Type} {g : α → List β} {xs ys : List α}
    (h : ∀ y ∈ ys, g y = []) : (xs ++ ys).flatMap g = xs.flatMap g := by
  have hnil : ys.flatMap g = [] := List.flatMap_eq_nil_iff.mpr h
  rw [List.flatMap_append, hnil, List.append_nil]

/-! ## Idle methods on one level -/

namespace Method.IsIdle

variable {x : Method} (h : x.IsIdle)

include h

theorem mapTypes (φ : TypeRef → TypeRef) : (x.mapTypes φ).IsIdle where
  isVirtual := h.isVirtual
  overrides := by rw [Method.mapTypes, h.overrides, List.map_nil]

theorem fillsExplicitly (l : Level) (i : TypeRef) (slot : String) :
    l.fillsExplicitly i slot x = false := by
  rw [Level.fillsExplicitly, h.overrides, List.any_nil]

theorem fillsImplicitly (l : Level) (declares : Bool) (slot : InterfaceSlot) :
    l.fillsImplicitly declares slot x = false := by
  unfold Level.fillsImplicitly
  cases slot.signature with
  | none => rfl
  | some s => simp [h.isVirtual]

end Method.IsIdle

namespace Level

/-- A level gains what its definition gains, if the definition keeps its outline. -/
theorem gainsIdle_of_methods {f : Definition → Definition} {l : Level}
    (hd : l.definition.KeepsOutline f) {extra : List (Nat × Method)}
    (hmethods : (f l.definition).methods = l.definition.methods ++ extra)
    (hidle : ∀ p ∈ extra, p.2.IsIdle) : l.GainsIdle f := by
  have hclose : (l.withDefinition f).close = l.close := by
    funext t
    rw [close, close, withDefinition, hd.paramNames]
  refine ⟨extra.map fun p => (p.1, p.2.mapTypes l.close), ?_, ?_⟩
  · rw [methods_closed, methods_closed, hclose, withDefinition, hmethods, List.map_append]
  · intro q hq
    obtain ⟨p, hp, rfl⟩ := List.mem_map.mp hq
    exact (hidle p hp).mapTypes l.close

theorem gainsIdle_of_closed {f : Definition → Definition} {l : Level}
    (h : (l.withDefinition f).closed.definition.methods = l.closed.definition.methods) :
    l.GainsIdle f :=
  ⟨[], by rw [h, List.append_nil], fun _ hp => absurd hp List.not_mem_nil⟩

namespace GainsIdle

variable {f : Definition → Definition} {l : Level} (h : l.GainsIdle f)

include h

theorem filler? : (l.withDefinition f).filler? = l.filler? := by
  obtain ⟨extra, hmethods, hextra⟩ := h
  rw [← filler?_closed, ← filler?_closed l]
  funext declares i slot
  rw [Level.filler?, hmethods,
    find?_append_of_false fun p hp => (hextra p hp).fillsExplicitly _ i slot.name,
    find?_append_of_false fun p hp => (hextra p hp).fillsImplicitly _ declares slot]
  rfl

/-- Rows name the same slots. -/
theorem rowsFor (i : TypeRef) :
    ((l.withDefinition f).rowsFor i).map (·.method) = (l.rowsFor i).map (·.method) := by
  have hnames : ∀ l : Level,
      (l.rowsFor i).map (·.method) = (l.closed.rowsFor i).map (·.method) := fun l => by
    rw [rowsFor_closed, List.map_map]
    rfl
  obtain ⟨extra, hmethods, hextra⟩ := h
  rw [hnames, hnames l, Level.rowsFor, hmethods, flatMap_append_of_nil]
  · rfl
  · intro p hp
    rw [(hextra p hp).overrides, List.filter_nil]

/-- Idle methods offer no slot to override. -/
theorem offersSlot : (l.withDefinition f).offersSlot = l.offersSlot := by
  obtain ⟨extra, hmethods, hextra⟩ := h
  rw [← offersSlot_closed, ← offersSlot_closed l]
  funext x own
  rw [Level.offersSlot, hmethods]
  exact any_append_of_false fun p hp => by simp [(hextra p hp).isVirtual]

end GainsIdle

end Level

end ApiBaseline
