import ApiBaseline.Metadata.Module

/-!
# What a module finds

The index holds places, the manifest holds definitions. Together they answer a
question by the first definition with the name and arity among those of the
module, or else among the references (`lookup_eq_find?`). All that is known of
an answer follows: it has the name and arity asked for, and it stands in the
manifest.
-/

namespace ApiBaseline

/-- All definitions of a manifest in the order of precedence. -/
def Manifest.definitions (m : Manifest) : List Definition := m.types ++ m.references

/-- The manifest with every definition replaced. -/
def Manifest.mapDefinitions (f : Definition → Definition) (m : Manifest) : Manifest :=
  { m with types := m.types.map f, references := m.references.map f }

theorem Manifest.definitions_mapDefinitions (f : Definition → Definition) (m : Manifest) :
    (m.mapDefinitions f).definitions = m.definitions.map f := List.map_append.symm

/-! ## The index -/

namespace Index

instance : Std.LawfulEqCmp compareKeys where
  eq_of_compare {a b} h := by
    obtain ⟨hname, harity⟩ := compareLex_eq_eq.mp h
    exact Prod.ext (Std.LawfulEqCmp.eq_of_compare hname)
      (Std.LawfulEqCmp.eq_of_compare harity)

/-- The place noted for a key is that of the first entry with the key. -/
theorem getElem?_foldl_note (index : Index) (es : List (Definition × Slot))
    (k : String × Nat) :
    (es.foldl note index)[k]? =
      index[k]?.or ((es.find? (·.1.key == k)).map (·.2)) := by
  induction es generalizing index with
  | nil => simp
  | cons e es ih =>
      rw [List.foldl_cons, ih, note, Std.TreeMap.getElem?_insertIfNew]
      simp only [Std.LawfulEqCmp.compare_eq_iff_eq]
      by_cases hk : e.1.key = k
      · subst hk
        by_cases hmem : e.1.key ∈ index <;> simp [hmem]
      · simp [hk]

theorem getElem?_ofManifest (m : Manifest) (k : String × Nat) :
    (ofManifest m)[k]? = ((entries m).find? (·.1.key == k)).map (·.2) := by
  have hempty : (Std.TreeMap.empty : Index)[k]? = none := Std.TreeMap.getElem?_emptyc
  rw [ofManifest, getElem?_foldl_note, hempty, Option.none_or]

end Index

/-! ## Finding definitions -/

def Manifest.at? (m : Manifest) : Slot → Option Definition
  | .defined i => m.types[i]?
  | .referenced i => m.references[i]?

theorem Index.map_entries (m : Manifest) : (entries m).map (·.1) = m.definitions := by
  have hfst : ∀ (ds : List Definition) (place : Definition × Nat → Definition × Slot),
      (∀ p, (place p).1 = p.1) → (ds.zipIdx.map place).map (·.1) = ds := by
    intro ds place hplace
    rw [List.map_map]
    simp only [Function.comp_def, hplace]
    exact List.zipIdx_map_fst 0 ds
  rw [entries, List.map_append, hfst, hfst, Manifest.definitions] <;> exact fun _ => rfl

/-- Every entry of the index stands where it is noted to stand. -/
theorem Index.at?_of_mem_entries {m : Manifest} {e : Definition × Slot}
    (h : e ∈ entries m) : m.at? e.2 = some e.1 := by
  rcases List.mem_append.mp h with h | h
  all_goals
    obtain ⟨⟨d, i⟩, hmem, rfl⟩ := List.mem_map.mp h
    exact List.mem_zipIdx_iff_getElem?.mp hmem

namespace Module

theorem lookup_eq_find? (m : Manifest) (name : String) (arity : Nat) :
    (ofManifest m).lookup name arity = m.definitions.find? (·.key == (name, arity)) := by
  have hlookup : (ofManifest m).lookup name arity
      = (Index.ofManifest m)[(name, arity)]?.bind m.at? := by
    unfold lookup ofManifest
    cases (Index.ofManifest m)[(name, arity)]? with
    | none => rfl
    | some place => cases place <;> rfl
  rw [hlookup, Index.getElem?_ofManifest, ← Index.map_entries, List.find?_map,
    Function.comp_def]
  cases hfind : (Index.entries m).find? (·.1.key == (name, arity)) with
  | none => rfl
  | some e => exact Index.at?_of_mem_entries (List.mem_of_find?_eq_some hfind)

/-- Only named references point at definitions, and at one with their name and
as many parameters as they have arguments. -/
theorem resolve_eq_some {m : Manifest} {t : TypeRef} {d : Definition}
    (h : (ofManifest m).resolve t = some d) :
    d ∈ m.definitions ∧ t = .named d.name t.args ∧ t.args.length = d.arity := by
  cases t with
  | named name args =>
      have hfind : m.definitions.find? (·.key == (name, args.length)) = some d := by
        rw [← lookup_eq_find?]
        exact h
      have hkey : d.key = (name, args.length) := by simpa using List.find?_some hfind
      obtain ⟨hname, harity⟩ := Prod.ext_iff.mp hkey
      have hname' : d.name = name := hname
      exact ⟨List.mem_of_find?_eq_some hfind, by rw [hname']; rfl, harity.symm⟩
  | param name => cases h
  | array element rank => cases h
  | byRef target => cases h
  | pointer target => cases h

/-- Definitions that are replaced under their names and arities are found in
place of the old ones. -/
theorem resolve_map {M M' : Manifest} {f : Definition → Definition}
    (hdefinitions : M'.definitions = M.definitions.map f) (hkey : ∀ d, (f d).key = d.key)
    (t : TypeRef) : (ofManifest M').resolve t = ((ofManifest M).resolve t).map f := by
  cases t with
  | named name args =>
      simp only [resolve, TypeRef.definitionName?, Option.bind_some]
      rw [lookup_eq_find?, lookup_eq_find?, hdefinitions, List.find?_map]
      simp only [Function.comp_def, hkey]
  | param name => rfl
  | array element rank => rfl
  | byRef target => rfl
  | pointer target => rfl

/-- Substitution keeps the definition that a reference points at, if it points
at one. -/
theorem resolve_substitute {m : Module} {t : TypeRef} {d : Definition}
    (h : m.resolve t = some d) (names : List String) (actuals : List TypeRef) :
    m.resolve (t.substitute names actuals) = some d
      ∧ (t.substitute names actuals).args = t.args.map (·.substitute names actuals) := by
  cases t with
  | named name args =>
      have hargs : ((TypeRef.named name args).substitute names actuals).args
          = args.map (·.substitute names actuals) :=
        TypeRef.substituteAll_eq_map names actuals args
      refine ⟨?_, hargs⟩
      rw [← h]
      simp [resolve, TypeRef.definitionName?, TypeRef.substitute, TypeRef.arity, TypeRef.args]
  | param name => cases h
  | array element rank => cases h
  | byRef target => cases h
  | pointer target => cases h

end Module

end ApiBaseline
