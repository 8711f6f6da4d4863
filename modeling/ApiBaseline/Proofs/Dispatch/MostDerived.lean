import ApiBaseline.Proofs.Classify.Slots

/-!
# Most derived fillers

Every entry of a dispatch map points at a method that is really there: what the
handle names is found again as a level of the hierarchy, and the method on it has a
row for the slot or fills it by its types (`FilledAt`). A row that stands lower in
the hierarchy always wins, so below that level nobody has one. And no slot is left
open that some level could fill (`dispatch_mostDerived`).

What fills a slot by its types depends on the overload of the slot; what fills it by a
row depends on its name only. So the levels below are free of rows for the name, while
one of them may well fill another overload.
-/

namespace ApiBaseline

namespace Module

/-- The method has the name and the types of an instance method of the interface, and
its modifiers let it fill that slot without a row. -/
structure FillsByTypes (m : Module) (l : Level) (i : TypeRef) (slot : String) (x : Method) :
    Prop where
  name : x.name = slot
  isPublic : x.access = .public
  isVirtual : x.isVirtual = true
  isInstance : x.isStatic = false
  /-- It overrides, or its level declares the interface. -/
  takesPart : x.isNewSlot = false ∨ ∃ j ∈ declared l, Leads m.parents j i
  types : ∃ known, m.resolve i = some known ∧ ∃ s ∈ known.methods,
    s.2.isStatic = false ∧ s.2.name = slot
      ∧ (l.signature x).returnType = (s.2.signature known.paramNames i.args).returnType
      ∧ (l.signature x).paramTypes = (s.2.signature known.paramNames i.args).paramTypes

/-- The entry of the dispatch map points at the method `x` of the level at height `k`,
which fills the slot, and no lower level has a method with a row for it. -/
structure FilledAt (m : Module) (d : Definition) (i : TypeRef) (s : FilledSlot) (k : Nat)
    (l : Level) (x : Method) : Prop where
  level : (m.hierarchy d)[k]? = some l
  found : m.lookup s.target.typeName s.target.arity = some l.definition
  member : l.definition.members[s.target.position]? = some (.method x)
  fills : l.HasRow i s.name x
    ∨ (∀ p ∈ l.definition.methods, ¬ l.HasRow i s.name p.2) ∧ m.FillsByTypes l i s.name x
  lowest : ∀ j < k, ∀ low, (m.hierarchy d)[j]? = some low →
    ∀ p ∈ low.definition.methods, ¬ low.HasRow i s.name p.2

/-! ## Levels are found -/

theorem lookup_of_resolve {M : Manifest} {t : TypeRef} {d : Definition}
    (h : (ofManifest M).resolve t = some d) : (ofManifest M).lookup d.name d.arity = some d := by
  obtain ⟨-, hnamed, hlength⟩ := resolve_eq_some h
  rw [hnamed] at h
  rw [← hlength]
  exact h

/-- Every level of a hierarchy is what its name and arity point at, if the type at the
bottom is. -/
theorem lookup_of_mem_hierarchy {M : Manifest} {d : Definition}
    (hd : (ofManifest M).lookup d.name d.arity = some d) :
    ∀ l ∈ (ofManifest M).hierarchy d,
      (ofManifest M).lookup l.definition.name l.definition.arity = some l.definition := by
  refine climb_invariant (fun seen below up _ hup => ?_) hd
  obtain ⟨base, -, hres, -⟩ := nextLevel?_eq_some hup
  exact lookup_of_resolve hres

/-- A definition that is found by some name and arity is found by its own. -/
theorem lookup_own {M : Manifest} {d : Definition} {name : String} {arity : Nat}
    (h : (ofManifest M).lookup name arity = some d) :
    (ofManifest M).lookup d.name d.arity = some d := by
  have hkey : d.key = (name, arity) := by
    rw [lookup_eq_find?] at h
    simpa using List.find?_some h
  obtain ⟨hname, harity⟩ := Prod.mk.inj hkey
  rwa [hname, harity]

/-! ## Slots that types fill -/

variable {m : Module} {d : Definition} {i : TypeRef}

/-- What fills a slot by its types does so for a slot of the interface, and the other
way round. -/
theorem fillsByTypes_iff (hfin : (m.interfaceClosure d).Finite) {l : Level}
    (hl : l ∈ m.hierarchy d) {name : String} {x : Method} : m.FillsByTypes l i name x
      ↔ ∃ slot ∈ m.slots d i, slot.name = name
        ∧ l.fillsImplicitly (m.declares l i) slot x = true := by
  have hdeclares := declares_iff (finite_of_mem_hierarchy hfin hl) i
  simp only [Level.fillsImplicitly_iff, hdeclares, Signature.sameTypes_iff]
  constructor
  · intro h
    obtain ⟨known, hknown, p, hp, hstatic, hname, htypes⟩ := h.types
    refine ⟨⟨p.2.name, some (p.2.signature known.paramNames i.args)⟩, ?_, hname,
      h.name.trans hname.symm, h.isPublic, h.isVirtual, h.isInstance, h.takesPart.symm, _, rfl,
      htypes⟩
    rw [slots, hknown]
    exact mem_knownSlots_iff.mpr ⟨p, hp, hstatic, rfl⟩
  · rintro ⟨slot, hslot, rfl, hname, hpublic, hvirtual, hinstance, htakes, s, hs, htypes⟩
    refine ⟨hname, hpublic, hvirtual, hinstance, htakes.symm, ?_⟩
    unfold slots at hslot
    cases hknown : m.resolve i with
    | none =>
        -- The slots of an opaque interface have no types.
        rw [hknown] at hslot
        rw [(mem_namedSlots_iff.mp hslot).1] at hs
        cases hs
    | some known =>
        rw [hknown] at hslot
        obtain ⟨p, hp, hstatic, rfl⟩ := mem_knownSlots_iff.mp hslot
        obtain rfl := Option.some.inj hs
        exact ⟨known, rfl, p, hp, hstatic, rfl, htypes⟩

/-! ## Filled slots and open slots -/

theorem exists_filledAt {M : Manifest} {s : FilledSlot}
    (hd : (ofManifest M).lookup d.name d.arity = some d)
    (hfin : ((ofManifest M).interfaceClosure d).Finite)
    (hs : s ∈ ((ofManifest M).dispatch d i).slots) :
    ∃ k l x, (ofManifest M).FilledAt d i s k l x := by
  obtain ⟨-, slot, hslot, hname, hfill⟩ := mem_dispatch_iff.mp hs
  obtain ⟨below, l, above, hlevels, ⟨position, hposition, htarget⟩, hbelow⟩ :=
    fillSlot_eq_some hfill
  obtain ⟨x, hx, hfills⟩ := Level.filler?_eq_some hposition
  have hl : l ∈ (ofManifest M).hierarchy d := hlevels ▸ by simp
  refine ⟨below.length, l, x, by simp [hlevels], ?_, ?_, ?_, fun j hj low hlow p hp => ?_⟩
  · rw [htarget]
    exact lookup_of_mem_hierarchy hd l hl
  · rw [htarget]
    exact Definition.mem_methods.mp hx
  · rw [← hname]
    exact hfills.imp (·.row) (And.imp_right fun hfills =>
      (fillsByTypes_iff hfin hl).mpr ⟨slot, hslot, rfl, hfills⟩)
  · have hmem : low ∈ below := by
      rw [hlevels, List.getElem?_append_left hj] at hlow
      exact List.mem_of_getElem? hlow
    rw [← hname]
    exact (Level.filler?_eq_none_iff.mp (hbelow low hmem) p hp).1

/-- No level can fill a slot that is left open. -/
theorem not_fills_of_open (hclass : d.isInterface = false)
    (hfin : (m.interfaceClosure d).Finite) {slot : InterfaceSlot} (hslot : slot ∈ m.slots d i)
    (hopen : ∀ s ∈ (m.dispatch d i).slots, s.name ≠ slot.name) {l : Level}
    (hl : l ∈ m.hierarchy d) {p : Nat × Method} (hp : p ∈ l.definition.methods) :
    ¬ l.HasRow i slot.name p.2 ∧ ¬ m.FillsByTypes l i slot.name p.2 := by
  have hunfilled : ∀ overload ∈ m.slots d i, overload.name = slot.name →
      ¬ l.HasRow i overload.name p.2
        ∧ l.fillsImplicitly (m.declares l i) overload p.2 = false := by
    intro overload hoverload hname
    have hnone : m.fillSlot d i overload = none := by
      refine Option.eq_none_iff_forall_ne_some.mpr fun target htarget => ?_
      exact hopen ⟨overload.name, target⟩
        (mem_dispatch_iff.mpr ⟨hclass, overload, hoverload, rfl, htarget⟩) hname
    exact Level.filler?_eq_none_iff.mp (fillSlot_eq_none_iff.mp hnone l hl) p hp
  refine ⟨(hunfilled slot hslot rfl).1, fun hfills => ?_⟩
  obtain ⟨overload, hoverload, hname, hfills⟩ := (fillsByTypes_iff hfin hl).mp hfills
  simp [(hunfilled overload hoverload hname).2] at hfills

/-- What some elements of a list become stands in the order of the list. -/
theorem map_filterMap_sublist {α β γ : Type} {f : α → Option β} {g : β → γ} {k : α → γ}
    (h : ∀ x y, f x = some y → g y = k x) (xs : List α) :
    ((xs.filterMap f).map g).Sublist (xs.map k) := by
  induction xs with
  | nil => exact .refl _
  | cons x xs ih =>
      cases hx : f x with
      | none =>
          rw [List.filterMap_cons_none hx]
          exact ih.cons _
      | some y =>
          rw [List.filterMap_cons_some hx, List.map_cons, List.map_cons, h x y hx]
          exact ih.cons_cons _

/-- The filled slots of an interface with a definition stand in the order of its
methods. -/
theorem names_dispatch_sublist {known : Definition} (hknown : m.resolve i = some known) :
    ((m.dispatch d i).slots.map (·.name)).Sublist
      ((known.methods.filter (!·.2.isStatic)).map (·.2.name)) := by
  have hnames : (knownSlots i known).map (·.name)
      = (known.methods.filter (!·.2.isStatic)).map (·.2.name) := by
    rw [knownSlots, List.map_map]
    rfl
  unfold dispatch
  cases d.isInterface with
  | true => exact List.nil_sublist _
  | false =>
      simp only [Bool.false_eq_true, if_false, slots, hknown, ← hnames]
      refine map_filterMap_sublist (fun slot s hs => ?_) _
      obtain ⟨target, -, rfl⟩ := Option.map_eq_some_iff.mp hs
      rfl

/-- **Dispatch maps are sound, most derived and complete.** -/
theorem dispatch_mostDerived {M : Manifest} {name : String} {arity : Nat}
    (hd : (ofManifest M).lookup name arity = some d) (hclass : d.isInterface = false)
    (hfin : ((ofManifest M).interfaceClosure d).Finite) (i : TypeRef) :
    (∀ s ∈ ((ofManifest M).dispatch d i).slots, ∃ k l x, (ofManifest M).FilledAt d i s k l x)
      ∧ (∀ slot ∈ (ofManifest M).slots d i,
          (∀ s ∈ ((ofManifest M).dispatch d i).slots, s.name ≠ slot.name) →
          ∀ l ∈ (ofManifest M).hierarchy d, ∀ p ∈ l.definition.methods,
            ¬ l.HasRow i slot.name p.2 ∧ ¬ (ofManifest M).FillsByTypes l i slot.name p.2)
      ∧ ∀ known, (ofManifest M).resolve i = some known →
          (((ofManifest M).dispatch d i).slots.map (·.name)).Sublist
            ((known.methods.filter (!·.2.isStatic)).map (·.2.name)) :=
  ⟨fun _ hs => exists_filledAt (lookup_own hd) hfin hs,
    fun _ hslot hopen _ hl _ hp => not_fills_of_open hclass hfin hslot hopen hl hp,
    fun _ hknown => names_dispatch_sublist hknown⟩

/-! ## A drawer in a cabinet -/

/-- To clear by a row of its own. -/
def clearByRow : Method :=
  { clearWith [] with access := .private, isFinal := true, overrides := [⟨forBooks, "Clear"⟩] }

def cabinet : Definition :=
  { openClass "Cabinet" [] none [putBookWith "U", clearByRow] with interfaces := [forBooks] }

def drawer : Definition := openClass "Drawer" [] (some (.named "Cabinet" [])) [clearByRow]

/-- A tray is a shelf for books once more, but does nothing of its own. -/
def tray : Definition :=
  { openClass "Tray" ["T"] (some (.named "Cabinet" [])) [] with
    interfaces := [forBooks, .named "IShelf" [.param "T"]] }

def furniture : Module := .ofManifest (library [slottedShelf, cabinet, drawer, tray])

theorem dispatch_drawer : (furniture.dispatch drawer forBooks).slots
    = [⟨"Put", ⟨"Cabinet", 0, 0⟩⟩, ⟨"Clear", ⟨"Drawer", 0, 0⟩⟩] := by
  have hlevels : furniture.hierarchy drawer = [⟨drawer, []⟩, ⟨cabinet, []⟩] := by decide
  have hclosure : furniture.closure forBooks = [forBooks] :=
    expand_of_parents (by decide) List.not_mem_nil
  have hcabinet : furniture.declares ⟨cabinet, []⟩ forBooks = true := by
    have hdeclared : declared ⟨cabinet, []⟩ = [forBooks] := by decide
    simp [declares, hdeclared, hclosure]
  simp only [dispatch, fillSlot, hlevels, List.findSome?, hcabinet]
  decide

/-- To put a book into the drawer is left to the cabinet; clearing it is the drawer's own
matter, and the cabinet's row does not count. -/
theorem drawer_clears_itself : furniture.lookup "Drawer" 0 = some drawer
    ∧ drawer.isInterface = false ∧ (furniture.interfaceClosure drawer).Finite
    ∧ (∃ k l x, furniture.FilledAt drawer forBooks ⟨"Put", ⟨"Cabinet", 0, 0⟩⟩ k l x)
    ∧ ∃ k l x, furniture.FilledAt drawer forBooks ⟨"Clear", ⟨"Drawer", 0, 0⟩⟩ k l x := by
  have hfound : furniture.lookup "Drawer" 0 = some drawer := by decide
  have hfinite : (furniture.interfaceClosure drawer).Finite :=
    interfaceClosure_finite [forBooks] (by decide) (by decide)
  obtain ⟨hfilled, -, -⟩ := dispatch_mostDerived hfound rfl hfinite forBooks
  exact ⟨hfound, rfl, hfinite, hfilled _ (dispatch_drawer ▸ by decide),
    hfilled _ (dispatch_drawer ▸ by decide)⟩

end Module

end ApiBaseline
