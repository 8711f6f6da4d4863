import ApiBaseline.Proofs.Classify.Renaming
import ApiBaseline.Proofs.Diff.Change
import ApiBaseline.Proofs.Generate

/-!
# Options laid over settings

A filter that is made of settings accepts what each setting lets pass
(`accepts_ofSettings`), whichever of its conditions are left out for being empty.
So options on the command line add to what is asked of a definition and take
nothing back (`accepts_withOverrides`).

Definitions are classified against the whole module, never against what a filter
has left of it. A record is the same under every filter that lets its definition
pass, so the document of a stricter filter is a part of the other one
(`generate_of_stricter`), and all that a comparison of the two can find is that
types have been removed (`compare_of_subset`).
-/

namespace ApiBaseline

/-! ## What a filter asks -/

theorem Settings.mem_foldl_addNew {x : String} (xs ys : List String) :
    x ∈ ys.foldl addNew xs ↔ x ∈ xs ∨ x ∈ ys := by
  induction ys generalizing xs with
  | nil => simp
  | cons y ys ih =>
      have hadd : x ∈ addNew xs y ↔ x ∈ xs ∨ x = y := by
        unfold addNew
        split
        · rename_i hy
          exact ⟨Or.inl, fun h => h.elim id fun hxy => hxy ▸ hy⟩
        · simp
      rw [List.foldl_cons, ih, hadd, List.mem_cons, or_assoc]

namespace Filter

variable (f : Filter) (d : Definition)

theorem accepts_also (p : Predicate) : (f.also p).accepts d = (f.accepts d && p.accepts d) := by
  simp [also, accepts]

/-- No namespace is left out by an empty list, so it makes no difference that the
condition is. -/
theorem accepts_excludeNamespaces (outers : List String) :
    (f.excludeNamespaces outers).accepts d
      = (f.accepts d && (Predicate.excludeNamespaces outers).accepts d) := by
  cases outers with
  | nil => simp [excludeNamespaces, Predicate.excludeNamespaces]
  | cons outer outers => exact accepts_also f d _

theorem accepts_excludeTypes (names : List String) :
    (f.excludeTypes names).accepts d
      = (f.accepts d && (Predicate.excludeTypes names).accepts d) := by
  cases names with
  | nil => simp [excludeTypes, Predicate.excludeTypes]
  | cons name names => exact accepts_also f d _

theorem accepts_ofSettings (s : Settings) :
    (ofSettings s).accepts d = true
      ↔ (s.publicOnly = true → d.access.accessibility = .public)
        ∧ (s.includeCompilerGenerated = false →
            Predicate.excludeCompilerGenerated.accepts d = true)
        ∧ (∀ outer ∈ s.excludeNamespaces, inNamespace outer d.namespaceName = false)
        ∧ d.name ∉ s.excludeTypes := by
  have hvisible : (if s.publicOnly then [Predicate.publicOnly] else [] : Filter).accepts d = true
      ↔ (s.publicOnly = true → d.access.accessibility = .public) := by
    cases s.publicOnly <;> simp [accepts, Predicate.publicOnly]
  have hwritten : ∀ visible : Filter,
      (if s.includeCompilerGenerated then visible
        else visible.also .excludeCompilerGenerated).accepts d = true
      ↔ visible.accepts d = true ∧ (s.includeCompilerGenerated = false →
          Predicate.excludeCompilerGenerated.accepts d = true) := by
    intro visible
    cases s.includeCompilerGenerated <;> simp [accepts_also]
  have hnamespaces : (Predicate.excludeNamespaces s.excludeNamespaces).accepts d = true
      ↔ ∀ outer ∈ s.excludeNamespaces, inNamespace outer d.namespaceName = false := by
    simp [Predicate.excludeNamespaces]
  have htypes : (Predicate.excludeTypes s.excludeTypes).accepts d = true
      ↔ d.name ∉ s.excludeTypes := by
    simp [Predicate.excludeTypes]
  rw [ofSettings, accepts_excludeTypes, accepts_excludeNamespaces, Bool.and_eq_true,
    Bool.and_eq_true, hwritten, hvisible, hnamespaces, htypes, and_assoc, and_assoc]

/-- Each option asks for something more. -/
theorem accepts_withOverrides (s : Settings) (publicOnly : Bool) (namespaces : List String) :
    (ofSettings (s.withOverrides publicOnly namespaces)).accepts d = true
      ↔ (ofSettings s).accepts d = true
        ∧ (publicOnly = true → d.access.accessibility = .public)
        ∧ ∀ outer ∈ namespaces, inNamespace outer d.namespaceName = false := by
  simp only [accepts_ofSettings, Settings.withOverrides, Settings.mem_foldl_addNew,
    Bool.or_eq_true, or_imp, forall_and]
  tauto

end Filter

/-! ## Parts of documents -/

/-- A part of a document adds nothing to it. Types with identifiers of their own
do not change either. -/
theorem Diff.compare_of_subset {old new : Document} (h : new.types ⊆ old.types) :
    (compare old new).addedTypes = []
      ∧ (old.typeIds.Nodup → (compare old new).changedTypes = []) := by
  refine ⟨missingFrom_eq_nil.mpr (List.map_subset _ h), fun hids => ?_⟩
  refine List.eq_nil_iff_forall_not_mem.mpr fun c hc => ?_
  obtain ⟨t, ht, u, hu, hchange⟩ := mem_changedTypes.mp hc
  obtain ⟨hmem, hid⟩ := Document.findType_eq_some hu
  obtain rfl : u = t := List.inj_on_of_nodup_map hids (h hmem) ht hid
  rw [changeTo?_self] at hchange
  exact absurd hchange nofun

namespace Module

variable (m : Module)

/-- A stricter filter leaves records out and changes none. -/
theorem generate_of_stricter {f f' : Filter}
    (hstricter : ∀ d, f'.accepts d = true → f.accepts d = true) {document : Document}
    (h : m.generate f = .ok document) :
    ∃ record : Definition → TypeRecord, document.types = (m.accepted f).map record
      ∧ m.generate f' = .ok ⟨document.identity, ((m.accepted f).filter f'.accepts).map record⟩ := by
  obtain ⟨record, hrecord, rfl⟩ := generate_eq_ok_iff.mp h
  have haccepted : (m.accepted f).filter f'.accepts = m.accepted f' := by
    rw [accepted, List.filter_filter, accepted]
    refine List.filter_congr fun d _ => ?_
    cases hd : f'.accepts d with
    | false => rfl
    | true => exact hstricter d hd
  refine ⟨record, rfl, generate_eq_ok_iff.mpr ⟨record, fun d hd => hrecord d ?_, ?_⟩⟩
  · rw [← haccepted] at hd
    exact List.mem_of_mem_filter hd
  · rw [haccepted]

/-- Options laid over the settings of a filter ask for more, and the document has
what is left of the one without them. -/
theorem generate_withOverrides (s : Settings) (publicOnly : Bool) (namespaces : List String) :
    (∀ d, (Filter.ofSettings (s.withOverrides publicOnly namespaces)).accepts d = true
        ↔ (Filter.ofSettings s).accepts d = true
          ∧ (publicOnly = true → d.access.accessibility = .public)
          ∧ ∀ outer ∈ namespaces, inNamespace outer d.namespaceName = false)
      ∧ ∀ document, m.generate (.ofSettings s) = .ok document →
          ∃ (record : Definition → TypeRecord) (document' : Document),
            m.generate (.ofSettings (s.withOverrides publicOnly namespaces)) = .ok document'
              ∧ document'.identity = document.identity
              ∧ document.types = (m.accepted (.ofSettings s)).map record
              ∧ document'.types = ((m.accepted (.ofSettings s)).filter
                  (Filter.ofSettings (s.withOverrides publicOnly namespaces)).accepts).map record
              ∧ (Diff.compare document document').addedTypes = []
              ∧ (document.typeIds.Nodup →
                  (Diff.compare document document').changedTypes = []) := by
  have haccepts := fun d => Filter.accepts_withOverrides d s publicOnly namespaces
  refine ⟨haccepts, fun document h => ?_⟩
  obtain ⟨record, htypes, h'⟩ := m.generate_of_stricter (fun d hd => ((haccepts d).mp hd).1) h
  refine ⟨record, _, h', rfl, htypes, rfl, Diff.compare_of_subset ?_⟩
  rw [htypes]
  exact List.map_subset record (List.filter_subset_self _)

end Module

/-! ## A library with a store room -/

def storeRoom : Manifest :=
  library [openClass "Reading.Shelf" [] none [], openClass "Stock.Crate" [] none [],
    { openClass "Reading.Ladder" [] none [] with access := .notPublic }]

theorem storeRoom_left_out :
    ∃ document document',
      (Module.ofManifest storeRoom).generate (.ofSettings .default) = .ok document
        ∧ (Module.ofManifest storeRoom).generate
            (.ofSettings (Settings.default.withOverrides true ["Stock"])) = .ok document'
        ∧ document.types.map (·.name) = ["Reading.Shelf", "Stock.Crate", "Reading.Ladder"]
        ∧ document'.types.map (·.name) = ["Reading.Shelf"]
        ∧ (Diff.compare document document').addedTypes = []
        ∧ (Diff.compare document document').changedTypes = [] := by
  obtain ⟨-, hless⟩ :=
    (Module.ofManifest storeRoom).generate_withOverrides .default true ["Stock"]
  obtain ⟨record, document', h', -, -, -, hadded, hchanged⟩ := hless _ rfl
  obtain rfl := Except.ok.inj h'
  exact ⟨_, _, rfl, rfl, by decide, by decide, hadded, hchanged (by decide)⟩

end ApiBaseline
