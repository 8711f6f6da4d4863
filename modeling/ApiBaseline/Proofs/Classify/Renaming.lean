import ApiBaseline.Proofs.Classify.Dispatch
import ApiBaseline.Proofs.Metadata.Lookup
import ApiBaseline.Proofs.TypeRef.Renaming

/-!
# Renamed parameters of other types

Whoever refers to a definition gives its parameters arguments and sees its bases,
interfaces and members in terms of those. The names of the parameters have no
part in that: they are bound by position, wherever a definition is reached, as a
level of a hierarchy, as an interface to be followed or as the declaration of
slots. So a record is the same when a definition other than that of its own type
has its parameters renamed (`classify_renameParams`).
-/

namespace ApiBaseline

/-- The definition with its parameters renamed where they are declared and
wherever they are mentioned. -/
def Definition.renameParams (ρ : String → String) (d : Definition) : Definition :=
  { d with
    base := d.base.map (TypeRef.rename d.paramNames ρ)
    interfaces := d.interfaces.map (TypeRef.rename d.paramNames ρ)
    genericParams := d.genericParams.map fun p =>
      { p.mapTypes (TypeRef.rename d.paramNames ρ) with name := ρ p.name }
    members := d.members.map (·.mapTypes (TypeRef.rename d.paramNames ρ)) }

/-- The manifest with the parameters of one definition renamed. -/
def Manifest.renameParams (M : Manifest) (B : Definition) (ρ : String → String) : Manifest :=
  M.mapDefinitions (Function.update id B (B.renameParams ρ))

namespace Definition

variable (ρ : String → String) (d : Definition)

theorem paramNames_renameParams : (d.renameParams ρ).paramNames = d.paramNames.map ρ := by
  simp [renameParams, paramNames, genericNames]

theorem arity_renameParams : (d.renameParams ρ).arity = d.arity := by
  simp [renameParams, arity]

theorem key_renameParams : (d.renameParams ρ).key = d.key := by
  rw [key, arity_renameParams]
  rfl

theorem derives_renameParams :
    (d.renameParams ρ).base.any (!·.isRoot) = d.base.any (!·.isRoot) := by
  have hroot : ∀ t : TypeRef, (t.rename d.paramNames ρ).isRoot = t.isRoot := by
    intro t
    cases t <;> rfl
  rw [renameParams, Option.any_map]
  simp only [hroot]

theorem methods_renameParams : (d.renameParams ρ).methods
    = d.methods.map fun p => (p.1, p.2.mapTypes (TypeRef.rename d.paramNames ρ)) :=
  methods_mapTypes rfl

end Definition

section

variable {M : Manifest} {B : Definition} {ρ : String → String} (hB : B ∈ M.definitions)
  (hρ : IsRenaming ρ B.paramNames M.names)

include hB hρ

/-- A renamed reference closes to what it has closed to. -/
theorem close_renameParams {args : List TypeRef} (hlen : args.length = B.arity) {t : TypeRef}
    (ht : t ∈ B.types) :
    (Level.mk (B.renameParams ρ) args).close (t.rename B.paramNames ρ)
      = (Level.mk B args).close t := by
  have hlen' : args.length = B.paramNames.length := by
    rw [hlen, Definition.arity, Definition.paramNames, genericNames, List.length_map]
  rw [Level.close, Level.close, Definition.paramNames_renameParams]
  exact TypeRef.substitute_rename hρ (Definition.mentions_subset hB ht) hlen'

theorem base?_renameParams {args : List TypeRef} (hlen : args.length = B.arity) :
    (Level.mk (B.renameParams ρ) args).base? = (Level.mk B args).base? := by
  rw [Level.base?, Definition.renameParams, Option.map_map]
  refine Option.map_congr fun t ht => close_renameParams hB hρ hlen ?_
  simp [Definition.types, ht]

theorem declared_renameParams {args : List TypeRef} (hlen : args.length = B.arity) :
    Module.declared ⟨B.renameParams ρ, args⟩ = Module.declared ⟨B, args⟩ := by
  rw [Module.declared, Definition.renameParams, List.map_map]
  refine List.map_congr_left fun t ht => close_renameParams hB hρ hlen ?_
  simp [Definition.types, ht]

/-- In closed form the methods are the same. -/
theorem closed_renameParams {args : List TypeRef} (hlen : args.length = B.arity) :
    (Level.mk (B.renameParams ρ) args).closed.definition.methods
      = (Level.mk B args).closed.definition.methods := by
  rw [Level.methods_closed, Level.methods_closed, Definition.methods_renameParams, List.map_map]
  refine List.map_congr_left fun p hp => ?_
  simp only [Function.comp_apply, Method.mapTypes_mapTypes]
  refine congrArg (Prod.mk p.1) (Method.mapTypes_congr fun t ht => ?_)
  exact close_renameParams hB hρ hlen (Definition.mem_types_of_method hp ht)

theorem sameSupertypes_renameParams :
    SameSupertypes (Function.update id B (B.renameParams ρ)) (.ofManifest M)
      (.ofManifest (M.renameParams B ρ)) where
  name := Definition.forall_update (P := fun d d' => d'.name = d.name) rfl fun _ => rfl
  arity := Definition.forall_update (P := fun d d' => d'.arity = d.arity)
    (B.arity_renameParams ρ) fun _ => rfl
  isInterface := Definition.forall_update (P := fun d d' => d'.isInterface = d.isInterface) rfl
    fun _ => rfl
  isValueType := Definition.forall_update (P := fun d d' => d'.isValueType = d.isValueType) rfl
    fun _ => rfl
  derives := Definition.forall_update (P := fun d d' => d'.base.any _ = d.base.any _)
    (B.derives_renameParams ρ) fun _ => rfl
  base? l hpoints := Definition.forall_update
    (P := fun d d' => l.args.length = d.arity →
      (Level.mk d' l.args).base? = (Level.mk d l.args).base?)
    (base?_renameParams hB hρ) (fun _ _ => rfl) l.definition hpoints.length
  declared l hpoints := Definition.forall_update
    (P := fun d d' => l.args.length = d.arity →
      Module.declared ⟨d', l.args⟩ = Module.declared ⟨d, l.args⟩)
    (declared_renameParams hB hρ) (fun _ _ => rfl) l.definition hpoints.length
  resolve := Module.resolve_map (M.definitions_mapDefinitions _) <|
    Definition.forall_update (P := fun d d' => d'.key = d.key) (B.key_renameParams ρ)
      fun _ => rfl
  valueTypes := rfl

theorem closed_update {l : Level} (hlen : l.args.length = l.definition.arity) :
    (l.withDefinition (Function.update id B (B.renameParams ρ))).closed.definition.methods
      = l.closed.definition.methods :=
  Definition.forall_update
    (P := fun d d' => l.args.length = d.arity →
      (Level.mk d' l.args).closed.definition.methods
        = (Level.mk d l.args).closed.definition.methods)
    (closed_renameParams hB hρ) (fun _ _ => rfl) l.definition hlen

theorem slotsStay_renameParams (D : Definition) :
    (Module.ofManifest M).SlotsStay (Function.update id B (B.renameParams ρ)) D := by
  intro i _ known hres
  have hslots := closed_update hB hρ (l := ⟨known, i.args⟩) (Module.resolve_eq_some hres).2.2
  rw [Level.knownSlots_closed ⟨known, i.args⟩ rfl, ← hslots]
  exact Level.knownSlots_closed (Level.withDefinition _ ⟨known, i.args⟩) rfl

end

/-- The names of the parameters of another type have no effect on a record. -/
theorem Module.classify_renameParams {M : Manifest} {B D : Definition} {ρ : String → String}
    (hB : B ∈ M.definitions) (hρ : IsRenaming ρ B.paramNames M.names) (hne : D ≠ B) :
    (ofManifest (M.renameParams B ρ)).classify D = (ofManifest M).classify D := by
  have hsame := sameSupertypes_renameParams hB hρ
  have hD : Function.update id B (B.renameParams ρ) D = D := Function.update_of_ne hne _ _
  have hkeeps : D.KeepsOutline (Function.update id B (B.renameParams ρ)) := by
    rw [Definition.KeepsOutline, hD]
  have hlevels : ∀ l ∈ (ofManifest M).hierarchy D,
      (l.withDefinition (Function.update id B (B.renameParams ρ))).closed.definition.methods
        = l.closed.definition.methods := by
    rw [hierarchy_eq_cons, List.forall_mem_cons]
    refine ⟨?_, fun l hl => closed_update hB hρ (pointsAt_of_mem_climb hl).length⟩
    rw [Level.withDefinition, hD]
  have hclassify := hsame.classify_type hkeeps
    (fun l hl => Level.gainsIdle_of_closed (hlevels l hl)) (slotsStay_renameParams hB hρ D)
    (by rw [hD]) (hsame.visibleMethods hkeeps hlevels)
  rwa [hD] at hclassify

/-! ## A shelf for anything -/

def virtualMethod (isNewSlot : Bool) (genericParams : List String) (types : List TypeRef) :
    Method :=
  { Method.plain "Put" with
    isVirtual := true
    isNewSlot := isNewSlot
    params := types.map (.plain "item")
    genericParams := genericParams.map .unconstrained }

def library (types : List Definition) : Manifest := ⟨"Library", types, [], []⟩

def shelf : Definition := openClass "Shelf" ["T"] none [virtualMethod true [] [.param "T"]]

def bookshelf : Definition :=
  openClass "Bookshelf" [] (some (.named "Shelf" [.named "Book" []]))
    [virtualMethod false [] [.named "Book" []]]

/-- To put a book on a bookshelf overrides what a shelf does with any item,
whatever the type of items is called there. -/
theorem bookshelf_overrides :
    ∃ t, (Module.ofManifest (library [shelf, bookshelf])).classify bookshelf = .ok t
      ∧ (Module.ofManifest ((library [shelf, bookshelf]).renameParams shelf
          fun _ => "U")).classify bookshelf = .ok t
      ∧ t.members.map (·.isOverride) = [true] := by
  have hρ : IsRenaming (fun _ => "U") shelf.paramNames (library [shelf, bookshelf]).names :=
    .single (by decide) "T"
  refine ⟨_, rfl, ?_, rfl⟩
  exact (Module.classify_renameParams (by decide) hρ (by decide)).trans rfl

end ApiBaseline
