import ApiBaseline.Proofs.Classify.Renaming
import Mathlib.Data.List.Nodup

/-!
# Renamed parameters of inherited methods

The generic parameters of an inherited method are matched with those of the
method that may override it, by position. But the arguments of the level have
been put in before, and an argument can mention a parameter of the type at the
bottom that bears the name of one of the method's own: it is replaced along with
that. So the names of a method's generic parameters matter
(`override_captured`), though only when the arguments of the level mention them;
otherwise the method can be renamed (`isOverride_renameGenerics`).
-/

namespace ApiBaseline

/-- The method with its own generic parameters renamed. -/
def Method.renameGenerics (ρ : String → String) (x : Method) : Method :=
  { x with
    returnType := x.returnType.rename (genericNames x.genericParams) ρ
    params := x.params.map (·.mapTypes (TypeRef.rename (genericNames x.genericParams) ρ))
    genericParams := x.genericParams.map fun p =>
      { p.mapTypes (TypeRef.rename (genericNames x.genericParams) ρ) with name := ρ p.name } }

def Definition.setMethod (d : Definition) (position : Nat) (x : Method) : Definition :=
  { d with members := d.members.set position (.method x) }

/-- The manifest with the generic parameters of one method renamed. -/
def Manifest.renameGenerics (M : Manifest) (B : Definition) (position : Nat) (b : Method)
    (ρ : String → String) : Manifest :=
  M.mapDefinitions (Function.update id B (B.setMethod position (b.renameGenerics ρ)))

/-! ## One method in place of another -/

theorem Definition.mem_methods_setMethod {d : Definition} {i j : Nat} {b x y : Method}
    (hb : (i, b) ∈ d.methods) :
    (j, y) ∈ (d.setMethod i x).methods ↔ if j = i then y = x else (j, y) ∈ d.methods := by
  rw [mem_methods, mem_methods, setMethod, List.getElem?_set]
  have hi : i < d.members.length := (List.getElem?_eq_some_iff.mp (mem_methods.mp hb)).1
  by_cases hji : j = i
  · subst hji
    simp [hi, eq_comm]
  · simp [hji, Ne.symm hji]

/-- A method that passes a test if and only if the replaced one does changes
nothing about whether there is any that passes. -/
theorem Definition.any_methods_setMethod {d : Definition} {i : Nat} {b x : Method}
    (hb : (i, b) ∈ d.methods) {p : Method → Bool} (hp : p x = p b) :
    (d.setMethod i x).methods.any (fun q => p q.2) = d.methods.any fun q => p q.2 := by
  rw [Bool.eq_iff_iff, List.any_eq_true, List.any_eq_true]
  constructor
  · rintro ⟨⟨j, y⟩, hmem, hy⟩
    rw [mem_methods_setMethod hb] at hmem
    split at hmem
    · subst hmem
      exact ⟨(i, b), hb, by rw [← hp]; exact hy⟩
    · exact ⟨(j, y), hmem, hy⟩
  · rintro ⟨⟨j, y⟩, hmem, hy⟩
    by_cases hji : j = i
    · subst hji
      have hyb : y = b := by
        have hsame := (mem_methods.mp hmem).symm.trans (mem_methods.mp hb)
        simpa using hsame
      exact ⟨(j, x), (mem_methods_setMethod hb).mpr (by simp), by rw [hp, ← hyb]; exact hy⟩
    · exact ⟨(j, y), (mem_methods_setMethod hb).mpr (by simpa [hji] using hmem), hy⟩

/-! ## Arguments of levels -/

/-- The definition is one of the manifest, and the arguments fit it and mention
names of the manifest only. -/
structure Level.IsOver (M : Manifest) (l : Level) : Prop where
  defined : l.definition ∈ M.definitions
  length : l.args.length = l.definition.paramNames.length
  mentions : ∀ a ∈ l.args, a.mentions ⊆ M.names

theorem Module.isOver_of_mem_hierarchy {M : Manifest} {D : Definition}
    (hD : D ∈ M.definitions) : ∀ l ∈ (ofManifest M).hierarchy D, l.IsOver M := by
  refine climb_invariant (fun seen below up hbelow hnext => ?_) ⟨hD, ?_, ?_⟩
  · obtain ⟨base, hbase, hres, -, hargs⟩ := nextLevel?_eq_some hnext
    obtain ⟨hdefined, hnamed, hlength⟩ := resolve_eq_some hres
    obtain ⟨t, ht, rfl⟩ := Option.map_eq_some_iff.mp hbase
    refine ⟨hdefined, ?_, fun a ha n hn => ?_⟩
    · rw [hargs, hlength]
      simp [Definition.arity, Definition.paramNames, genericNames]
    · have hclosed : n ∈ (below.close t).mentions := by
        rw [hnamed]
        exact TypeRef.mem_mentions_named.mpr ⟨a, hargs ▸ ha, hn⟩
      rcases TypeRef.mem_mentions_substitute hbelow.length hclosed with hn | ⟨b, hb, hn⟩
      · have htypes : t ∈ below.definition.types := by simp [Definition.types, ht]
        exact Definition.mentions_subset hbelow.defined htypes hn
      · exact hbelow.mentions b hb hn
  · simp [Definition.ownArgs, genericRefs, Definition.paramNames, genericNames]
  · intro a ha n hn
    obtain ⟨p, hp, rfl⟩ := List.mem_map.mp ha
    obtain rfl := List.mem_singleton.mp hn
    exact Definition.paramNames_subset hD (List.mem_map_of_mem hp)

/-! ## Slots of a method with other names -/

/-- The method's own parameters are none of the type's, and no argument of the
level mentions a parameter that is named like one of them. -/
structure Level.CapturesNothing (l : Level) (b : Method) : Prop where
  own : ∀ n ∈ genericNames b.genericParams, n ∉ l.definition.paramNames
  args : ∀ a ∈ l.args, ∀ n ∈ a.mentions, n ∉ genericNames b.genericParams

theorem Method.genericNames_renameGenerics (ρ : String → String) (x : Method) :
    genericNames (x.renameGenerics ρ).genericParams = (genericNames x.genericParams).map ρ := by
  simp [renameGenerics, genericNames]

section

variable {M : Manifest} {l : Level} {i : Nat} {b : Method} {ρ : String → String}
  (hl : l.IsOver M) (hb : (i, b) ∈ l.definition.methods)
  (hρ : IsRenaming ρ (genericNames b.genericParams) M.names) (hfree : l.CapturesNothing b)

include hl hb hρ hfree

/-- What stands for the method's own parameters arrives in the same places. -/
theorem signature_renameGenerics {refs : List TypeRef}
    (hrefs : refs.length = (genericNames b.genericParams).length) :
    (l.signature (b.renameGenerics ρ)).substitute
        (genericNames (b.renameGenerics ρ).genericParams) refs
      = (l.signature b).substitute (genericNames b.genericParams) refs := by
  have htype : ∀ t ∈ b.types,
      ((t.rename (genericNames b.genericParams) ρ).substitute l.definition.paramNames
          l.args).substitute ((genericNames b.genericParams).map ρ) refs
        = (t.substitute l.definition.paramNames l.args).substitute
            (genericNames b.genericParams) refs := fun t ht =>
    TypeRef.substitute_substitute_rename hρ
      (Definition.mentions_subset hl.defined (Definition.mem_types_of_method hb ht))
      (Definition.paramNames_subset hl.defined) hfree.own hl.length hl.mentions hfree.args hrefs
  rw [Method.genericNames_renameGenerics, Signature.substitute, Signature.substitute,
    Level.signature, Level.signature, Method.signature, Method.signature, Method.renameGenerics]
  refine congrArg₂ Signature.mk (htype _ List.mem_cons_self) ?_
  simp only [List.map_map]
  refine List.map_congr_left fun p hp => ?_
  have hp' : p.type ∈ b.types := by
    simp only [Method.types, List.cons_append, List.mem_cons, List.mem_append]
    exact Or.inr (Or.inl (Or.inl (List.mem_map_of_mem hp)))
  simp only [Function.comp_apply, Parameter.shape, Parameter.mapTypes, htype p.type hp']

theorem offersSlot_renameGenerics (x : Method) (own : Signature) :
    (Level.mk (l.definition.setMethod i (b.renameGenerics ρ)) l.args).offersSlot x own
      = l.offersSlot x own := by
  refine Definition.any_methods_setMethod hb (p := fun y =>
    y.name == x.name && y.isVirtual && !y.isStatic
      && y.genericParams.length == x.genericParams.length
      && ((l.signature y).substitute (genericNames y.genericParams)
            (genericRefs x.genericParams)).sameTypes own) ?_
  have hlength : (b.renameGenerics ρ).genericParams.length = b.genericParams.length := by
    rw [Method.renameGenerics, List.length_map]
  by_cases harity : b.genericParams.length = x.genericParams.length
  · have hrefs : (genericRefs x.genericParams).length
        = (genericNames b.genericParams).length := by
      simp [genericRefs, genericNames, harity]
    simp only [hlength, signature_renameGenerics hl hb hρ hfree hrefs]
    rfl
  · have hfalse := beq_eq_false_iff_ne.mpr harity
    simp [hlength, hfalse]

end

/-! ## Overriding -/

theorem sameOutline_renameGenerics (M : Manifest) (B : Definition) (i : Nat) (b : Method)
    (ρ : String → String) :
    SameOutline (Function.update id B (B.setMethod i (b.renameGenerics ρ))) (.ofManifest M)
      (.ofManifest (M.renameGenerics B i b ρ)) := by
  have houtline : ∀ d : Definition, d.KeepsOutline
      (Function.update id B (B.setMethod i (b.renameGenerics ρ))) :=
    Definition.forall_update (P := fun d d' => d' = { d with members := d'.members }) rfl
      fun _ => rfl
  refine ⟨houtline, Module.resolve_map (M.definitions_mapDefinitions _) fun d => ?_, rfl⟩
  rw [houtline d]
  rfl

/-- The names of the generic parameters of an inherited method have no effect on
what overrides, unless the arguments of its level mention them. -/
theorem Module.isOverride_renameGenerics {M : Manifest} {D : Definition} {l : Level} {i : Nat}
    {b : Method} {ρ : String → String} (hD : D ∈ M.definitions)
    (hl : l ∈ ((ofManifest M).hierarchy D).drop 1) (hb : (i, b) ∈ l.definition.methods)
    (hρ : IsRenaming ρ (genericNames b.genericParams) M.names)
    (hfree : l.CapturesNothing b) :
    (ofManifest (M.renameGenerics l.definition i b ρ)).isOverride D
      = (ofManifest M).isOverride D := by
  have hout := sameOutline_renameGenerics M l.definition i b ρ
  have hover := isOver_of_mem_hierarchy hD l (List.mem_of_mem_drop hl)
  funext x
  have hsame := hout.sameSupertypes.isOverride_of_offersSlot (hout.keepsOutline D) (x := x)
    fun up hup => ?_
  · rwa [Function.update_of_ne (ne_definition_of_mem_drop hl)] at hsame
  · by_cases hdef : up.definition = l.definition
    · -- A hierarchy holds no definition twice.
      obtain rfl : up = l := List.inj_on_of_nodup_map (nodup_keys_hierarchy _ D)
        (List.mem_of_mem_drop hup) (List.mem_of_mem_drop hl) (congrArg Definition.key hdef)
      rw [Level.withDefinition, Function.update_self]
      exact offersSlot_renameGenerics hover hb hρ hfree x _
    · rw [Level.withDefinition, Function.update_of_ne hdef]
      rfl

/-! ## A shelf for pairs -/

def putWith (u : String) : Method := virtualMethod true [u] [.param "T", .param u]

/-- Anything can be put on the shelf together with an item. -/
def pairShelf : Definition := openClass "Shelf" ["T"] none [putWith "U"]

def pairBookshelf : Definition :=
  openClass "Bookshelf" [] (some (.named "Shelf" [.named "Book" []]))
    [virtualMethod false ["V"] [.named "Book" [], .param "V"]]

/-- A bookshelf overrides the method under either name of its parameter. -/
theorem pairBookshelf_overrides :
    (Module.ofManifest ((library [pairShelf, pairBookshelf]).renameGenerics pairShelf 0
        (putWith "U") fun _ => "W")).isOverride pairBookshelf
      = (Module.ofManifest (library [pairShelf, pairBookshelf])).isOverride pairBookshelf
    ∧ (Module.ofManifest (library [pairShelf, pairBookshelf])).isOverride pairBookshelf
        (virtualMethod false ["V"] [.named "Book" [], .param "V"]) = true := by
  have hρ : IsRenaming (fun _ => "W") (genericNames (putWith "U").genericParams)
      (library [pairShelf, pairBookshelf]).names := .single (by decide) "U"
  have hfree : (Level.mk pairShelf [.named "Book" []]).CapturesNothing (putWith "U") :=
    ⟨by decide, by decide⟩
  exact ⟨Module.isOverride_renameGenerics (l := ⟨pairShelf, [.named "Book" []]⟩) (by decide)
    (by decide) (by decide) hρ hfree, by decide⟩

/-- A rack whose items are called `U`. -/
def rack : Definition :=
  openClass "Rack" ["U"] (some (.named "Shelf" [.param "U"]))
    [virtualMethod false ["V"] [.param "U", .param "V"]]

/-- The method of the rack has the types of the inherited one, but overrides it
only once the parameter of that one has another name than that of the rack. -/
theorem override_captured :
    "W" ∉ (library [pairShelf, rack]).names ∧ "U" ∉ pairShelf.paramNames
      ∧ (rack.methods.map fun p =>
          (Module.ofManifest (library [pairShelf, rack])).isOverride rack p.2) = [false]
      ∧ (rack.methods.map fun p =>
          (Module.ofManifest ((library [pairShelf, rack]).renameGenerics pairShelf 0
            (putWith "U") fun _ => "W")).isOverride rack p.2) = [true] := by
  decide

end ApiBaseline
