import ApiBaseline.Proofs.Classify.Override
import ApiBaseline.Proofs.Dispatch.Filler

/-!
# Filled slots and inherited slots

A method can take the place of one that is declared elsewhere in two ways: it
overrides an inherited method, or it fills the slot of an interface. Both compare
types with the arguments of the declaring type put in. But what overrides has
also as many generic parameters as the inherited method, and these are renamed to
its own by position before the types are compared (`Level.Matches`). A slot is
filled by the types as they stand.

So the two agree for methods whose generic parameters have the same names, and
apart from that exactly where the renaming changes nothing
(`Module.Candidate.fills_iff`). A method whose parameters have names of their own
can leave a slot open that it matches, and fill one that it does not match
(`Module.crate_fills_other_slot`).
-/

namespace ApiBaseline

/-! ## Signatures with the same types -/

namespace Signature

variable {s t u : Signature}

theorem sameTypes_comm : s.sameTypes t = true ↔ t.sameTypes s = true := by
  rw [sameTypes_iff, sameTypes_iff, eq_comm, @eq_comm _ s.paramTypes]

theorem sameTypes_congr_left (h : s.sameTypes t = true) :
    s.sameTypes u = true ↔ t.sameTypes u = true := by
  obtain ⟨hreturn, hparams⟩ := sameTypes_iff.mp h
  rw [sameTypes_iff, sameTypes_iff, hreturn, hparams]

theorem sameTypes_congr_right (h : s.sameTypes t = true) :
    u.sameTypes s = true ↔ u.sameTypes t = true := by
  rw [sameTypes_comm, sameTypes_congr_left h, sameTypes_comm]

/-- Parameters that are put in for themselves leave a signature as it is. -/
theorem substitute_own (params : List GenericParam) (s : Signature) :
    s.substitute (genericNames params) (genericRefs params) = s := by
  have hrefs : genericRefs params = (genericNames params).map .param := by
    rw [genericNames, List.map_map]
    rfl
  rw [substitute, hrefs]
  simp only [TypeRef.substitute_own, List.map_id']

end Signature

/-! ## Inherited slots -/

namespace Level

/-- The definition that a reference points at, with the arguments of the
reference. -/
def ofRef (d : Definition) (t : TypeRef) : Level := ⟨d, t.args⟩

/-- The signature of the level's method `s` under the generic parameters of
another method, by position. -/
def renamed (l : Level) (s x : Method) : Signature :=
  (l.signature s).substitute (genericNames s.genericParams) (genericRefs x.genericParams)

/-- The method `x` with the signature `own` has as many generic parameters as the
level's method `s` and the types of that one under its own parameters. -/
def Matches (l : Level) (s x : Method) (own : Signature) : Prop :=
  s.genericParams.length = x.genericParams.length ∧ (l.renamed s x).sameTypes own = true

instance (l : Level) (s x : Method) (own : Signature) : Decidable (l.Matches s x own) :=
  inferInstanceAs (Decidable (_ ∧ _))

theorem offersSlot_iff {l : Level} {x : Method} {own : Signature} :
    l.offersSlot x own = true ↔ ∃ p ∈ l.definition.methods,
      p.2.name = x.name ∧ p.2.isVirtual = true ∧ p.2.isStatic = false ∧ l.Matches p.2 x own := by
  simp only [offersSlot, List.any_eq_true, Bool.and_eq_true, beq_iff_eq, Bool.not_eq_true',
    Matches, renamed, and_assoc]

end Level

/-! ## Filled slots -/

namespace Module

variable {m : Module} {d known : Definition} {i : TypeRef} {s x : Method} {position : Nat}

/-- The type's own method at a position fills the slot of an interface. -/
def Fills (m : Module) (d : Definition) (i : TypeRef) (slot : String) (position : Nat) : Prop :=
  ⟨slot, ⟨d.name, d.arity, position⟩⟩ ∈ (m.dispatch d i).slots

/-- The type `d`, not an interface itself, declares the interface `i`, which has the
definition `known` and in it one instance method `s` of its name. The method `x` at
the position is the only one of `d` with that name, its modifiers let it fill slots,
and no row in `d` names the slot of `s`. -/
structure Candidate (m : Module) (d : Definition) (i : TypeRef) (known : Definition)
    (s x : Method) (position : Nat) : Prop where
  isClass : d.isInterface = false
  finite : (m.interfaceClosure d).Finite
  declares : ∃ j ∈ d.interfaces, Leads m.parents j i
  resolves : m.resolve i = some known
  slot : ∃ j, (j, s) ∈ known.methods
  slotIsInstance : s.isStatic = false
  onlySlot : ∀ p ∈ known.methods, p.2.isStatic = false → p.2.name = s.name → p.2 = s
  method : (position, x) ∈ d.methods
  name : x.name = s.name
  onlyMethod : ∀ p ∈ d.methods, p.2.name = s.name → p = (position, x)
  isPublic : x.access = .public
  isVirtual : x.isVirtual = true
  isInstance : x.isStatic = false
  noRow : ∀ p ∈ d.methods, ∀ row ∈ p.2.overrides, row.method = s.name → row.interface ≠ i

namespace Candidate

variable (h : m.Candidate d i known s x position)

include h

theorem declares_own : m.declares ⟨d, d.ownArgs⟩ i = true := by
  have hown : ∀ j ∈ d.interfaces, j ∈ declared ⟨d, d.ownArgs⟩ := fun j hj =>
    List.mem_map.mpr ⟨j, hj, close_own d j⟩
  have hfin : ∀ j ∈ declared ⟨d, d.ownArgs⟩, {u | Leads m.parents j u}.Finite := by
    refine fun j hj => h.finite.subset fun u hu => ⟨j, List.mem_flatMap.mpr ⟨_, ?_, hj⟩, hu⟩
    rw [hierarchy_eq_cons]
    exact List.mem_cons_self
  obtain ⟨j, hj, hlead⟩ := h.declares
  exact (declares_iff hfin i).mpr ⟨j, hown j hj, hlead⟩

/-- No row fills the slot, so the only method with its name does, if it has the
types of the slot. -/
theorem filler?_eq_some_iff (signature : Signature) :
    (Level.mk d d.ownArgs).filler? true i ⟨s.name, some signature⟩ = some position
      ↔ (d.ownSignature x).sameTypes signature = true := by
  have hrow : ∀ p ∈ d.methods, ¬ (Level.mk d d.ownArgs).HasRow i s.name p.2 := fun p hp hrow =>
    h.noRow p hp _ (hasRow_own.mp hrow) rfl rfl
  have hfills : (Level.mk d d.ownArgs).fillsImplicitly true ⟨s.name, some signature⟩ x
      = (d.ownSignature x).sameTypes signature := by
    simp [Level.fillsImplicitly, h.name, h.isPublic, h.isVirtual, h.isInstance]
    rfl
  have hunique : ∀ p ∈ d.methods,
      (Level.mk d d.ownArgs).fillsImplicitly true ⟨s.name, some signature⟩ p.2 = true →
        p = (position, x) := by
    intro p hp hfill
    simp only [Level.fillsImplicitly, Bool.and_eq_true, beq_iff_eq] at hfill
    exact h.onlyMethod p hp hfill.1.1.1.1.1
  have hfound := find?_eq_some_of_unique hunique
  rw [hfills] at hfound
  rw [Level.filler?_of_no_row hrow, Option.map_eq_some_iff]
  constructor
  · rintro ⟨p, hp, -⟩
    have hfill := List.find?_some hp
    obtain rfl := hunique p (List.mem_of_find?_eq_some hp) hfill
    exact (hfound.mp hp).2
  · exact fun htypes => ⟨(position, x), hfound.mpr ⟨h.method, htypes⟩, rfl⟩

theorem fillSlot_eq_some_iff (signature : Signature) :
    m.fillSlot d i ⟨s.name, some signature⟩ = some ⟨d.name, d.arity, position⟩
      ↔ (d.ownSignature x).sameTypes signature = true := by
  rw [fillSlot_eq_own_iff, h.declares_own, h.filler?_eq_some_iff]

theorem fills_iff_sameTypes : m.Fills d i s.name position
    ↔ (d.ownSignature x).sameTypes ((Level.ofRef known i).signature s) = true := by
  have hslots : m.slots d i = knownSlots i known := by rw [slots, h.resolves]
  rw [← h.fillSlot_eq_some_iff, Fills, mem_dispatch_iff, hslots]
  constructor
  · rintro ⟨-, slot, hslot, hname, hfill⟩
    obtain ⟨p, hp, hstatic, rfl⟩ := mem_knownSlots_iff.mp hslot
    -- The interface has one slot with this name.
    obtain rfl := h.onlySlot p hp hstatic hname
    exact hfill
  · intro hfill
    obtain ⟨j, hj⟩ := h.slot
    exact ⟨h.isClass, _, mem_knownSlots_iff.mpr ⟨(j, s), hj, h.slotIsInstance, rfl⟩, rfl, hfill⟩

/-- **Filled slots are matched by the types as they stand.** A candidate fills the slot
if and only if it has the types of the slot, with the arguments of the interface
put in. If its generic parameters have the names of those of the slot, that is the
case if and only if it matches the slot as a method matches what it overrides.
Otherwise what fills a slot matches it, and what matches a slot fills it, only if
the renaming leaves the types of the slot as they are. -/
theorem fills_iff :
    (m.Fills d i s.name position
        ↔ (d.ownSignature x).sameTypes ((Level.ofRef known i).signature s) = true)
      ∧ (genericNames x.genericParams = genericNames s.genericParams →
        (m.Fills d i s.name position
          ↔ (Level.ofRef known i).Matches s x (d.ownSignature x)))
      ∧ (m.Fills d i s.name position →
        ((Level.ofRef known i).Matches s x (d.ownSignature x)
          ↔ s.genericParams.length = x.genericParams.length
            ∧ ((Level.ofRef known i).renamed s x).sameTypes
                ((Level.ofRef known i).signature s) = true))
      ∧ ((Level.ofRef known i).Matches s x (d.ownSignature x) →
        (m.Fills d i s.name position
          ↔ ((Level.ofRef known i).renamed s x).sameTypes
              ((Level.ofRef known i).signature s) = true))
      ∧ (s.isVirtual = true →
        ((Level.ofRef known i).offersSlot x (d.ownSignature x) = true
          ↔ (Level.ofRef known i).Matches s x (d.ownSignature x))) := by
  refine ⟨h.fills_iff_sameTypes, fun hnames => ?_, fun hfills => ?_, fun hmatches => ?_,
    fun hvirtual => ?_⟩
  · -- Parameters of the same names are put in for themselves.
    have hlength : s.genericParams.length = x.genericParams.length := by
      simpa [genericNames] using congrArg List.length hnames.symm
    have hrefs : genericRefs x.genericParams = genericRefs s.genericParams := by
      simpa [genericNames, genericRefs, Function.comp_def]
        using congrArg (List.map TypeRef.param) hnames
    rw [h.fills_iff_sameTypes, Level.Matches, Level.renamed, hrefs, Signature.substitute_own,
      Signature.sameTypes_comm]
    exact (and_iff_right hlength).symm
  · rw [Level.Matches, Signature.sameTypes_congr_right (h.fills_iff_sameTypes.mp hfills)]
  · rw [h.fills_iff_sameTypes, Signature.sameTypes_congr_left hmatches.2]
  · rw [Level.offersSlot_iff]
    constructor
    · rintro ⟨p, hp, hname, -, hstatic, hmatch⟩
      rwa [h.onlySlot p hp hstatic (hname.trans h.name)] at hmatch
    · obtain ⟨j, hj⟩ := h.slot
      exact fun hmatch => ⟨(j, s), hj, h.name.symm, hvirtual, h.slotIsInstance, hmatch⟩

end Candidate

/-! ## A crate for books -/

def clearWith (genericParams : List String) : Method :=
  { virtualMethod true genericParams [] with name := "Clear" }

/-- Anything can be put on a shelf together with an item, and a shelf can be
cleared. -/
def slottedShelf : Definition :=
  { openClass "IShelf" ["T"] none [putWith "U", clearWith []] with isInterface := true }

def forBooks : TypeRef := .named "IShelf" [.named "Book" []]

def putBookWith (u : String) : Method := virtualMethod true [u] [.named "Book" [], .param u]

def crate (u : String) : Definition :=
  { openClass "Crate" [] none [putBookWith u, clearWith ["V"]] with interfaces := [forBooks] }

def storage (u : String) : Module := .ofManifest (library [slottedShelf, crate u])

/-- The crate has one method for each slot of the shelf, in the same order. -/
theorem candidate_crate {u : String} (hu : u = "U" ∨ u = "V") {k : Nat} {s x : Method}
    (hs : (k, s) ∈ slottedShelf.methods) (hx : (k, x) ∈ (crate u).methods) :
    (storage u).Candidate (crate u) forBooks slottedShelf s x k := by
  have hpairs : k = 0 ∧ s = putWith "U" ∧ x = putBookWith u
      ∨ k = 1 ∧ s = clearWith [] ∧ x = clearWith ["V"] := by
    have hslots : (k, s) ∈ [(0, putWith "U"), (1, clearWith [])] := hs
    have hmethods : (k, x) ∈ [(0, putBookWith u), (1, clearWith ["V"])] := hx
    simp only [List.mem_cons, List.not_mem_nil, or_false, Prod.mk.injEq] at hslots hmethods
    rcases hslots with ⟨rfl, rfl⟩ | ⟨rfl, rfl⟩
    · exact Or.inl ⟨rfl, rfl, by simpa using hmethods⟩
    · exact Or.inr ⟨rfl, rfl, by simpa using hmethods⟩
  have hfinite : ((storage u).interfaceClosure (crate u)).Finite := by
    refine interfaceClosure_finite [forBooks] ?_ ?_ <;> rcases hu with rfl | rfl <;> decide
  have hresolves : (storage u).resolve forBooks = some slottedShelf := by
    rcases hu with rfl | rfl <;> decide
  have hdeclares : forBooks ∈ (crate u).interfaces := List.mem_cons_self
  rcases hpairs with ⟨rfl, rfl, rfl⟩ | ⟨rfl, rfl, rfl⟩ <;>
  exact
    { isClass := rfl
      finite := hfinite
      declares := ⟨_, hdeclares, .refl⟩
      resolves := hresolves
      slot := ⟨_, hs⟩
      slotIsInstance := rfl
      onlySlot := by decide
      method := hx
      name := rfl
      onlyMethod := by rcases hu with rfl | rfl <;> decide
      isPublic := rfl
      isVirtual := rfl
      isInstance := rfl
      noRow := by rcases hu with rfl | rfl <;> decide }

/-- A crate that names its parameter as the shelf does fills the slot. -/
theorem crate_fills_shelf :
    (storage "U").Candidate (crate "U") forBooks slottedShelf (putWith "U") (putBookWith "U") 0
      ∧ (storage "U").Fills (crate "U") forBooks "Put" 0 := by
  have h := candidate_crate (u := "U") (k := 0) (s := putWith "U") (x := putBookWith "U")
    (Or.inl rfl) (by decide) (by decide)
  obtain ⟨-, halike, -⟩ := h.fills_iff
  exact ⟨h, (halike rfl).mpr (by decide)⟩

/-- Under another name of the parameter the slot is left open, though the method
matches it; and a slot without generic parameters is filled by a method with one. -/
theorem crate_fills_other_slot :
    ((storage "V").Candidate (crate "V") forBooks slottedShelf (putWith "U") (putBookWith "V") 0
        ∧ (Level.ofRef slottedShelf forBooks).Matches (putWith "U") (putBookWith "V")
            ((crate "V").ownSignature (putBookWith "V"))
        ∧ ¬ (storage "V").Fills (crate "V") forBooks "Put" 0)
      ∧ (storage "V").Candidate (crate "V") forBooks slottedShelf (clearWith [])
            (clearWith ["V"]) 1
        ∧ ¬ (Level.ofRef slottedShelf forBooks).Matches (clearWith []) (clearWith ["V"])
            ((crate "V").ownSignature (clearWith ["V"]))
        ∧ (storage "V").Fills (crate "V") forBooks "Clear" 1 := by
  have hput := candidate_crate (u := "V") (k := 0) (s := putWith "U") (x := putBookWith "V")
    (Or.inr rfl) (by decide) (by decide)
  have hclear := candidate_crate (u := "V") (k := 1) (s := clearWith []) (x := clearWith ["V"])
    (Or.inr rfl) (by decide) (by decide)
  refine ⟨⟨hput, by decide, fun hfills => ?_⟩, hclear, by decide, ?_⟩
  · exact absurd (hput.fills_iff_sameTypes.mp hfills) (by decide)
  · exact hclear.fills_iff_sameTypes.mpr (by decide)

end Module

end ApiBaseline
