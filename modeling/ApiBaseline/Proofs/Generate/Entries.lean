import ApiBaseline.Proofs.Classify.Renaming
import ApiBaseline.Proofs.Generate.Agreement

/-!
# Entries that make no difference

The entries of a manifest count for what is found by name and arity. A reference
entry that no definition mentions is never asked for and changes nothing
(`generate_addReferences`); that it stands behind the others is not enough, since
an entry with a new name can give a definition to what has been opaque. And where
no name and arity stands twice, the first entry is the only one, so the order of
entries settles the order of records and nothing else (`generate_reorders`).
-/

namespace ApiBaseline

/-! ## Agreement by entries -/

/-- The names that the references of a manifest mention. -/
def Manifest.typeNames (M : Manifest) : List String :=
  M.definitions.flatMap fun d => d.types.flatMap (·.typeNames)

theorem Definition.namesIn_typeNames {M : Manifest} {d : Definition} (hd : d ∈ M.definitions) :
    d.NamesIn {n | n ∈ M.typeNames} := fun t ht _ hn =>
  List.mem_flatMap.mpr ⟨d, hd, List.mem_flatMap.mpr ⟨t, ht, hn⟩⟩

namespace AgreeOn

variable {S : Set String} {m m' : Module}

/-- Modules that find the same entries agree. -/
theorem of_lookup (hlookup : ∀ name ∈ S, m'.lookup name = m.lookup name)
    (hvalueTypes : m'.manifest.valueTypes.contains = m.manifest.valueTypes.contains)
    (hnames : ∀ (t : TypeRef) d, m.resolve t = some d → d.NamesIn S) : AgreeOn S m m' := by
  have hresolve : ∀ t : TypeRef, t.NamesIn S → m'.resolve t = m.resolve t := fun t ht =>
    Option.bind_congr fun name hname => congrFun (hlookup name (ht.definitionName hname)) t.arity
  refine ⟨hresolve, fun t ht => ?_, fun t d _ hres => hnames t d hres⟩
  rw [Module.isValueType, Module.hasValueTypeShape, hresolve t ht, hvalueTypes,
    Module.isValueType, Module.hasValueTypeShape]

/-- A module that agrees and has the same definitions has the same document. -/
theorem generate (h : AgreeOn S m m') (hidentity : m'.manifest.identity = m.manifest.identity)
    (htypes : m'.manifest.types = m.manifest.types)
    (hnames : ∀ d ∈ m.manifest.types, d.NamesIn S) (f : Filter) :
    m'.generate f = m.generate f := by
  have hrecords : (m.accepted f).mapM m'.classify = (m.accepted f).mapM m.classify :=
    mapM_congr_of_mem fun d hd => h.classify_type (hnames d (List.mem_of_mem_filter hd))
  rw [Module.generate, htypes, hidentity, ← Module.accepted, hrecords, Module.generate,
    ← Module.accepted]

end AgreeOn

/-! ## Entries that nothing mentions -/

def Manifest.addReferences (rs : List Definition) (M : Manifest) : Manifest :=
  { M with references := M.references ++ rs }

section

variable {M : Manifest} {rs : List Definition}

theorem Module.lookup_addReferences {name : String} (h : ∀ r ∈ rs, r.name ≠ name) :
    (ofManifest (M.addReferences rs)).lookup name = (ofManifest M).lookup name := by
  funext arity
  have hdefinitions : (M.addReferences rs).definitions = M.definitions ++ rs :=
    (List.append_assoc M.types M.references rs).symm
  rw [lookup_eq_find?, lookup_eq_find?, hdefinitions]
  refine find?_append_of_false fun r hr => ?_
  simpa [Definition.key] using fun hname => absurd hname (h r hr)

variable (hunmentioned : ∀ r ∈ rs, r.name ∉ M.typeNames)

include hunmentioned

theorem agreeOn_addReferences :
    AgreeOn {n | n ∈ M.typeNames} (.ofManifest M) (.ofManifest (M.addReferences rs)) := by
  refine .of_lookup (fun name hname => ?_) rfl fun t d hres => ?_
  · exact Module.lookup_addReferences fun r hr heq => hunmentioned r hr (heq ▸ hname)
  · exact Definition.namesIn_typeNames (Module.resolve_eq_some hres).1

/-- Entries for names that nothing mentions do not change the document, nor the
error in place of one. -/
theorem Module.generate_addReferences (f : Filter) :
    (ofManifest (M.addReferences rs)).generate f = (ofManifest M).generate f :=
  (agreeOn_addReferences hunmentioned).generate rfl rfl
    (fun _ hd => Definition.namesIn_typeNames (List.mem_append_left _ hd)) f

end

/-- No shelf mentions the ladder that leans against it. -/
def ladder : Definition := openClass "Ladder" ["T"] (some (.named "Shelf" [.param "T"])) []

theorem ladder_unmentioned :
    ladder.name ∉ (library [shelf, bookshelf]).typeNames ∧ ∃ document,
      (Module.ofManifest ((library [shelf, bookshelf]).addReferences [ladder])).generate []
          = .ok document
        ∧ document.types.map (·.name) = ["Shelf<T>", "Bookshelf"] := by
  have hladder : ∀ r ∈ [ladder], r.name ∉ (library [shelf, bookshelf]).typeNames := by decide
  refine ⟨hladder ladder List.mem_cons_self, _, Module.generate_addReferences hladder [], ?_⟩
  decide

/-! ## Entries in another order -/

/-- The same entries in another order. -/
structure Manifest.Reorders (M M' : Manifest) : Prop where
  identity : M'.identity = M.identity
  types : M'.types.Perm M.types
  references : M'.references.Perm M.references
  valueTypes : M'.valueTypes.Perm M.valueTypes

theorem Manifest.Reorders.symm {M M' : Manifest} (h : M.Reorders M') : M'.Reorders M :=
  ⟨h.identity.symm, h.types.symm, h.references.symm, h.valueTypes.symm⟩

theorem Manifest.Reorders.definitions {M M' : Manifest} (h : M.Reorders M') :
    M'.definitions.Perm M.definitions := h.types.append h.references

/-- Of entries with distinct keys the one with a key is found. -/
theorem find?_key_eq_some {ds : List Definition} (hkeys : (ds.map (·.key)).Nodup)
    {key : String × Nat} {d : Definition} :
    ds.find? (·.key == key) = some d ↔ d ∈ ds ∧ d.key = key := by
  constructor
  · exact fun h => ⟨List.mem_of_find?_eq_some h, by simpa using List.find?_some h⟩
  · rintro ⟨hd, rfl⟩
    refine (find?_eq_some_of_unique fun e he hkey => ?_).mpr ⟨hd, beq_self_eq_true d.key⟩
    exact List.inj_on_of_nodup_map hkeys he hd (beq_iff_eq.mp hkey)

section

variable {M M' : Manifest} (hkeys : (M.definitions.map (·.key)).Nodup) (h : M.Reorders M')

include hkeys h

theorem nodup_keys_of_reorders : (M'.definitions.map (·.key)).Nodup :=
  (h.definitions.map _).nodup_iff.mpr hkeys

theorem agreeOn_of_reorders : AgreeOn Set.univ (.ofManifest M) (.ofManifest M') := by
  refine .of_lookup (fun name _ => ?_) ?_ fun _ _ _ _ _ _ _ => Set.mem_univ _
  · funext arity
    rw [Module.lookup_eq_find?, Module.lookup_eq_find?]
    refine Option.ext fun d => ?_
    rw [find?_key_eq_some hkeys, find?_key_eq_some (nodup_keys_of_reorders hkeys h),
      h.definitions.mem_iff]
  · funext name
    exact h.valueTypes.contains_eq

/-- Definitions have the same records in both documents. -/
theorem Module.generate_of_reorders {f : Filter} {document : Document}
    (hdocument : (ofManifest M).generate f = .ok document) :
    ∃ record : Definition → TypeRecord,
      document.types = ((ofManifest M).accepted f).map record
        ∧ (ofManifest M').generate f
          = .ok ⟨document.identity, ((ofManifest M').accepted f).map record⟩ := by
  obtain ⟨record, hrecord, rfl⟩ := generate_eq_ok_iff.mp hdocument
  refine ⟨record, rfl, generate_eq_ok_iff.mpr ⟨record, fun d hd => ?_, ?_⟩⟩
  · have hmem : d ∈ (ofManifest M).accepted f := (h.types.filter f.accepts).mem_iff.mp hd
    rw [(agreeOn_of_reorders hkeys h).classify_type fun _ _ _ _ => Set.mem_univ _]
    exact hrecord d hmem
  · exact congrArg (Document.mk · _) h.identity.symm

/-- Where no name and arity stands twice, records stand in the order of the
module's own definitions, and the order of the other entries does not matter. -/
theorem Module.generate_reorders (f : Filter) :
    (M'.types = M.types → (ofManifest M').generate f = (ofManifest M).generate f)
      ∧ ((∃ document', (ofManifest M').generate f = .ok document')
          ↔ ∃ document, (ofManifest M).generate f = .ok document)
      ∧ ∀ document, (ofManifest M).generate f = .ok document →
          ∃ record : Definition → TypeRecord,
            document.types = ((ofManifest M).accepted f).map record
              ∧ (ofManifest M').generate f
                = .ok ⟨document.identity, ((ofManifest M').accepted f).map record⟩ := by
  refine ⟨fun htypes => ?_, ⟨?_, ?_⟩, fun _ => generate_of_reorders hkeys h⟩
  · exact (agreeOn_of_reorders hkeys h).generate h.identity htypes
      (fun _ _ _ _ _ _ => Set.mem_univ _) f
  · rintro ⟨document', hdocument'⟩
    obtain ⟨record, -, hdocument⟩ :=
      generate_of_reorders (nodup_keys_of_reorders hkeys h) h.symm hdocument'
    exact ⟨_, hdocument⟩
  · rintro ⟨document, hdocument⟩
    obtain ⟨record, -, hdocument'⟩ := generate_of_reorders hkeys h hdocument
    exact ⟨_, hdocument'⟩

end

/-- Shelves with what is put on them and leant against them, which are not the
library's own. -/
def furnishedLibrary : Manifest :=
  { library [shelf, bookshelf] with
    references := [openClass "Book" [] none [], ladder]
    valueTypes := ["Label", "Mark"] }

def Manifest.reverse (M : Manifest) : Manifest :=
  { M with
    types := M.types.reverse
    references := M.references.reverse
    valueTypes := M.valueTypes.reverse }

theorem Manifest.reorders_reverse (M : Manifest) : M.Reorders M.reverse where
  identity := rfl
  types := M.types.reverse_perm
  references := M.references.reverse_perm
  valueTypes := M.valueTypes.reverse_perm

theorem furnishedLibrary_reversed :
    ∃ s b : TypeRecord,
      (Module.ofManifest furnishedLibrary).generate [] = .ok ⟨"Library", [s, b]⟩
        ∧ (Module.ofManifest furnishedLibrary.reverse).generate [] = .ok ⟨"Library", [b, s]⟩
        ∧ b.members.map (·.isOverride) = [true] := by
  obtain ⟨s, b, hdocument, hoverride⟩ : ∃ s b : TypeRecord,
      (Module.ofManifest furnishedLibrary).generate [] = .ok ⟨"Library", [s, b]⟩
        ∧ b.members.map (·.isOverride) = [true] := ⟨_, _, rfl, rfl⟩
  obtain ⟨-, -, hsame⟩ :=
    Module.generate_reorders (by decide) furnishedLibrary.reorders_reverse []
  obtain ⟨record, hrecords, hreversed⟩ := hsame _ hdocument
  have hrecords' : [s, b] = [record shelf, record bookshelf] := hrecords
  obtain ⟨rfl, rfl⟩ : s = record shelf ∧ b = record bookshelf := by simpa using hrecords'
  exact ⟨_, _, hdocument, hreversed, hoverride⟩

end ApiBaseline
