import ApiBaseline.Classify.Visible
import ApiBaseline.Proofs.Dispatch.Filler
import Mathlib.Data.Finset.Card
import Mathlib.Data.Prod.Lex
import Mathlib.Order.WellFounded

/-!
# Places of visible methods

Looking a name up passes the methods of a hierarchy from the type up, on each level in
the order of declaration. The list of visible methods keeps names and signatures only;
here every method has a place (`MethodPlace`), and what can be seen there is said by
itself (`Module.VisibleAt`): a public method, unless it is virtual and a method at an
earlier place overrides it. The list holds a name and signature once for each place where
it can be seen (`one_lt_occurrences_iff`).
-/

namespace ApiBaseline

/-- A place in a hierarchy: a level, counted from the bottom, and a position among the
members there. Places are passed in this order. -/
abbrev MethodPlace : Type := Nat ×ₗ Nat

namespace Module

/-- Looking names up on `d` passes the method `x` at the place `a`; `s` is its signature
in the terms of `d`. Static methods are not inherited. -/
def Passes (m : Module) (d : Definition) (a : MethodPlace) (x : Method) (s : Signature) : Prop :=
  ∃ l, (m.hierarchy d)[(ofLex a).1]? = some l ∧ ((ofLex a).2, x) ∈ l.definition.methods
    ∧ ((ofLex a).1 = 0 ∨ x.isStatic = false) ∧ s = l.signature x

/-- The method at the place overrides methods with the name and signature further on. -/
def OverridesAt (m : Module) (d : Definition) (name : String) (s : Signature) (a : MethodPlace) :
    Prop :=
  ∃ x, m.Passes d a x s ∧ x.name = name ∧ x.isVirtual = true ∧ x.isNewSlot = false

/-- A method with the name and signature can be seen at the place. -/
def VisibleAt (m : Module) (d : Definition) (name : String) (s : Signature) (a : MethodPlace) :
    Prop :=
  ∃ x, m.Passes d a x s ∧ x.name = name ∧ x.access = .public
    ∧ (x.isVirtual = true → ∀ b < a, ¬ m.OverridesAt d name s b)

/-- On the lowest level are the methods of the type itself. -/
theorem passes_own_iff {m : Module} {d : Definition} {position : Nat} {x : Method}
    {s : Signature} : m.Passes d (toLex (0, position)) x s
      ↔ (position, x) ∈ d.methods ∧ s = d.ownSignature x := by
  rw [Passes, hierarchy_eq_cons]
  simp [Level.signature, Definition.ownSignature]

end Module

/-! ## The walk -/

/-- What the list of visible methods holds of a method. -/
def InheritedMethod.entry (i : InheritedMethod) : String × Signature :=
  (i.method.name, i.signature)

/-- The methods of a hierarchy with their places, in the order in which they are passed. -/
def Module.walk (m : Module) (d : Definition) : List (MethodPlace × InheritedMethod) :=
  (m.hierarchy d).zipIdx.flatMap fun (l, depth) =>
    (l.definition.methods.filter fun (_, x) => depth == 0 || !x.isStatic).map
      fun (position, x) => (toLex (depth, position), ⟨depth, x, l.signature x⟩)

namespace Module

variable {m : Module} {d : Definition}

theorem map_snd_walk : (m.walk d).map (·.2) = m.inheritedMethods d := by
  simp only [walk, inheritedMethods, Level.inheritedMethods, List.map_flatMap, List.map_map,
    Function.comp_def]

theorem mem_walk {a : MethodPlace} {i : InheritedMethod} :
    (a, i) ∈ m.walk d ↔ i.depth = (ofLex a).1 ∧ m.Passes d a i.method i.signature := by
  simp only [walk, List.mem_flatMap, List.mem_map, List.mem_filter, Prod.exists, Passes,
    List.mem_zipIdx_iff_getElem?, Bool.or_eq_true, beq_iff_eq, Bool.not_eq_true', Prod.mk.injEq]
  constructor
  · rintro ⟨l, depth, hl, position, x, ⟨hx, hstatic⟩, rfl, rfl⟩
    exact ⟨rfl, l, hl, hx, hstatic, rfl⟩
  · rintro ⟨hdepth, l, hl, hx, hstatic, hs⟩
    refine ⟨l, _, hl, _, i.method, ⟨hx, hstatic⟩, rfl, ?_⟩
    rw [← hdepth, ← hs]

/-- The places are passed in their order. -/
theorem pairwise_walk : (m.walk d).Pairwise fun p q => p.1 < q.1 := by
  refine List.pairwise_flatMap.mpr ⟨fun l _ => ?_,
    (pairwise_zipIdx (m.hierarchy d)).imp fun hless p hp q hq => ?_⟩
  · refine List.pairwise_map.mpr ((l.1.definition.pairwise_methods.filter _).imp fun hless => ?_)
    exact Prod.Lex.toLex_lt_toLex.mpr (Or.inr ⟨rfl, hless⟩)
  · obtain ⟨x, -, rfl⟩ := List.mem_map.mp hp
    obtain ⟨y, -, rfl⟩ := List.mem_map.mp hq
    exact Prod.Lex.toLex_lt_toLex.mpr (Or.inl hless)

end Module

/-! ## What is kept of the walk -/

/-- The overridden slots once the method has been passed. -/
def InheritedMethod.addTo (i : InheritedMethod) (overridden : SignatureList) : SignatureList :=
  if i.method.isVirtual && !i.method.isNewSlot then i.entry :: overridden else overridden

theorem InheritedMethod.mem_addTo {i : InheritedMethod} {overridden : SignatureList}
    {e : String × Signature} : e ∈ i.addTo overridden ↔ e ∈ overridden
      ∨ i.method.isVirtual = true ∧ i.method.isNewSlot = false ∧ i.entry = e := by
  unfold addTo
  cases i.method.isVirtual <;> cases i.method.isNewSlot <;> simp [or_comm, eq_comm]

/-- A public method is listed unless it is virtual and has been overridden. -/
theorem visibleFrom_cons (i : InheritedMethod) (rest : List InheritedMethod)
    (overridden : SignatureList) : visibleFrom overridden (i :: rest)
      = if i.method.access = .public ∧ (i.method.isVirtual = true → i.entry ∉ overridden)
          then i.entry :: visibleFrom (i.addTo overridden) rest
          else visibleFrom (i.addTo overridden) rest := by
  rw [visibleFrom, InheritedMethod.addTo, InheritedMethod.entry]
  cases i.method.isVirtual <;> simp

/-- The method at `p` stays visible in a walk, where `overridden` lists the slots that
have been overridden before. -/
def StaysVisible (overridden : SignatureList) (walk : List (MethodPlace × InheritedMethod))
    (p : MethodPlace × InheritedMethod) : Prop :=
  p.2.method.access = .public ∧ (p.2.method.isVirtual = true → p.2.entry ∉ overridden
    ∧ ∀ q ∈ walk, q.1 < p.1 → q.2.method.isVirtual = true → q.2.method.isNewSlot = false →
        q.2.entry ≠ p.2.entry)

section

variable (overridden : SignatureList) {walk : List (MethodPlace × InheritedMethod)}
  {p q : MethodPlace × InheritedMethod}

/-- For whatever follows, a method has been passed if what it overrides is listed. -/
theorem staysVisible_cons_of_mem (hless : p.1 < q.1) :
    StaysVisible overridden (p :: walk) q ↔ StaysVisible (p.2.addTo overridden) walk q := by
  simp only [StaysVisible, InheritedMethod.mem_addTo, List.forall_mem_cons, not_or, not_and,
    hless, forall_const, ne_eq, and_assoc]

theorem staysVisible_cons_self (hsorted : ∀ q ∈ walk, p.1 < q.1) :
    StaysVisible overridden (p :: walk) p
      ↔ p.2.method.access = .public ∧ (p.2.method.isVirtual = true → p.2.entry ∉ overridden) := by
  refine and_congr_right fun _ => imp_congr_right fun _ => and_iff_left ?_
  intro q hq hless
  rcases List.mem_cons.mp hq with rfl | hq
  · exact absurd hless (lt_irrefl _)
  · exact absurd hless (lt_asymm (hsorted q hq))

/-- The visible methods are those that stay visible, in the order of the walk. -/
theorem exists_sublist_visibleFrom (hsorted : walk.Pairwise fun p q => p.1 < q.1) :
    ∃ kept : List (MethodPlace × InheritedMethod), kept.Sublist walk
      ∧ visibleFrom overridden (walk.map (·.2)) = kept.map (·.2.entry)
      ∧ ∀ p ∈ walk, p ∈ kept ↔ StaysVisible overridden walk p := by
  induction walk generalizing overridden with
  | nil => exact ⟨[], .slnil, rfl, nofun⟩
  | cons p walk ih =>
      obtain ⟨hp, hrest⟩ := List.pairwise_cons.mp hsorted
      obtain ⟨kept, hsub, hlist, hkept⟩ := ih (p.2.addTo overridden) hrest
      have htail : ∀ q ∈ walk, q ∈ kept ↔ StaysVisible overridden (p :: walk) q := fun q hq =>
        (hkept q hq).trans (staysVisible_cons_of_mem overridden (hp q hq)).symm
      have hnew : p ∉ walk := fun hmem => lt_irrefl _ (hp p hmem)
      have hself := staysVisible_cons_self overridden hp
      rw [List.map_cons, visibleFrom_cons, hlist]
      split
      case isTrue hvisible =>
          refine ⟨p :: kept, hsub.cons_cons p, rfl, List.forall_mem_cons.mpr ⟨?_, fun q hq => ?_⟩⟩
          · exact iff_of_true List.mem_cons_self (hself.mpr hvisible)
          · rw [List.mem_cons, or_iff_right (ne_of_mem_of_not_mem hq hnew), htail q hq]
      case isFalse hhidden =>
          refine ⟨kept, hsub.cons p, rfl, List.forall_mem_cons.mpr ⟨?_, htail⟩⟩
          exact iff_of_false (fun hmem => hnew (hsub.subset hmem)) fun h => hhidden (hself.mp h)

end

/-! ## Visible places -/

namespace Module

variable {m : Module} {d : Definition} {name : String} {s : Signature} {a : MethodPlace}

theorem overridesAt_iff : m.OverridesAt d name s a ↔ ∃ i, (a, i) ∈ m.walk d
    ∧ i.entry = (name, s) ∧ i.method.isVirtual = true ∧ i.method.isNewSlot = false := by
  simp only [OverridesAt, mem_walk, InheritedMethod.entry, Prod.mk.injEq]
  constructor
  · rintro ⟨x, hx, rfl, hvirtual, hslot⟩
    exact ⟨⟨_, x, s⟩, ⟨rfl, hx⟩, ⟨rfl, rfl⟩, hvirtual, hslot⟩
  · rintro ⟨i, ⟨-, hi⟩, ⟨rfl, rfl⟩, hvirtual, hslot⟩
    exact ⟨i.method, hi, rfl, hvirtual, hslot⟩

theorem visibleAt_iff : m.VisibleAt d name s a ↔ ∃ i, (a, i) ∈ m.walk d
    ∧ i.entry = (name, s) ∧ StaysVisible [] (m.walk d) (a, i) := by
  simp only [VisibleAt, StaysVisible, overridesAt_iff, List.not_mem_nil, not_false_eq_true,
    true_and, Prod.forall]
  constructor
  · rintro ⟨x, hx, rfl, hpublic, hfirst⟩
    refine ⟨⟨_, x, s⟩, mem_walk.mpr ⟨rfl, hx⟩, rfl, hpublic, fun hvirtual b j hj hless => ?_⟩
    exact fun hv hs he => hfirst hvirtual b hless ⟨j, hj, he, hv, hs⟩
  · rintro ⟨i, hi, hentry, hpublic, hfirst⟩
    obtain ⟨hname, hs⟩ := Prod.mk.inj hentry
    refine ⟨i.method, hs ▸ (mem_walk.mp hi).2, hname, hpublic, fun hvirtual b hless => ?_⟩
    rintro ⟨j, hj, he, hv, hslot⟩
    exact hfirst hvirtual b j hj hless hv hslot (he.trans hentry.symm)

/-- The places at which a name and signature can be seen, one for each time that the list
of visible methods has them. -/
theorem exists_visiblePlaces (m : Module) (d : Definition) (name : String) (s : Signature) :
    ∃ places : List MethodPlace, places.Nodup
      ∧ places.length = (m.visibleMethods d).occurrences name s
      ∧ ∀ a, a ∈ places ↔ m.VisibleAt d name s a := by
  obtain ⟨kept, hsub, hlist, hkept⟩ := exists_sublist_visibleFrom []
    (pairwise_walk (m := m) (d := d))
  refine ⟨(kept.filter (·.2.entry == (name, s))).map (·.1), ?_, ?_, fun a => ?_⟩
  · exact List.pairwise_map.mpr <|
      ((pairwise_walk.sublist hsub).filter _).imp fun hless => hless.ne
  · rw [List.length_map, ← List.countP_eq_length_filter, SignatureList.occurrences,
      visibleMethods, ← map_snd_walk, hlist, List.countP_map]
    rfl
  · simp only [visibleAt_iff, List.mem_map, List.mem_filter, beq_iff_eq, Prod.exists,
      exists_and_right, exists_eq_right]
    constructor
    · rintro ⟨i, hi, hentry⟩
      exact ⟨i, hsub.subset hi, hentry, (hkept _ (hsub.subset hi)).mp hi⟩
    · rintro ⟨i, hi, hentry, hstays⟩
      exact ⟨i, (hkept _ hi).mpr hstays, hentry⟩

/-- The list of visible methods has a name and signature twice if and only if they can be
seen at two places. -/
theorem one_lt_occurrences_iff : 1 < (m.visibleMethods d).occurrences name s
    ↔ ∃ a, m.VisibleAt d name s a ∧ ∃ b, m.VisibleAt d name s b ∧ a ≠ b := by
  obtain ⟨places, hnodup, hlength, hmem⟩ := m.exists_visiblePlaces d name s
  rw [← hlength, ← List.toFinset_card_of_nodup hnodup, Finset.one_lt_card]
  simp only [List.mem_toFinset, hmem]

end Module

end ApiBaseline
