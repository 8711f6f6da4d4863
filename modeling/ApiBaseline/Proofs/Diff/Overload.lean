import ApiBaseline.Proofs.Classify.Overload
import ApiBaseline.Proofs.Diff.Change
import ApiBaseline.Proofs.Generate

/-!
# Overloads and compatibility

To add a method to a type adds to what its users can do, so a comparison should
report it as an addition. It does unless the method makes another one hide: the
flag is part of the identifier, and the old identifier is gone
(`compare_addMethod`). Hiding is decided by structural signatures, which leave
the number of generic parameters out; so the methods at risk are those that
differ from the added one in that number only.
-/

namespace ApiBaseline

/-- The identifiers of the methods of `owner` that begin to hide when `x` is
added, as they are before. -/
def Module.idsAtRisk (m : Module) (owner : Definition) (x : Method) : Set String :=
  {id | ∃ position y r, (position, y) ∈ owner.methods ∧ m.BeginsToHide owner x y
    ∧ (m.memberContext owner).method position y = .ok r ∧ r.id = id}

section

variable {M : Manifest} {owner d : Definition} {x : Method} {old new : Document}
  {t t' : TypeRecord}
  (hkeys : (M.definitions.map (·.key)).Nodup) (howner : owner ∈ M.types)
  (hold : (Module.ofManifest M).generate [] = .ok old)
  (hnew : (Module.ofManifest (M.addMethod owner x)).generate [] = .ok new)

include hkeys howner hold hnew

/-- An added method leaves the identifiers of types as they are. -/
theorem typeIds_addMethod : new.typeIds = old.typeIds := by
  have hout : SameOutline (owner.gain x) _ _ := sameOutline_addMethod hkeys howner
  have hids : ∀ d, ((Module.ofManifest (M.addMethod owner x)).typeHead (owner.gain x d)).id
      = ((Module.ofManifest M).typeHead d).id := fun d => by
    rw [hout.sameSupertypes.typeHead (hout.keepsOutline d)]
  rw [Module.typeIds_generate hold, Module.typeIds_generate hnew, Module.accepted_nil,
    Module.accepted_nil]
  simp only [Module.ofManifest, Manifest.addMethod, List.map_map, Function.comp_def]
  exact List.map_congr_left fun d _ => hids d

/-- Distinct identifiers tell which definition a record of the new document is
about. -/
theorem classify_of_id (hids : old.typeIds.Nodup) (ht' : t' ∈ new.types) (hd : d ∈ M.types)
    (hid : t'.id = ((Module.ofManifest M).typeHead d).id) :
    (Module.ofManifest (M.addMethod owner x)).classify (owner.gain x d) = .ok t' := by
  have hout : SameOutline (owner.gain x) _ _ := sameOutline_addMethod hkeys howner
  obtain ⟨d', hd', hclassify⟩ := (Module.mem_types_iff hnew t').mp ht'
  rw [Module.accepted_nil] at hd'
  obtain ⟨e, he, rfl⟩ := List.mem_map.mp hd'
  rw [Module.typeIds_generate hold, Module.accepted_nil] at hids
  have hsame : ((Module.ofManifest M).typeHead e).id
      = ((Module.ofManifest M).typeHead d).id := by
    rw [← hid, Module.id_of_classify hclassify,
      hout.sameSupertypes.typeHead (hout.keepsOutline e)]
  rwa [← List.inj_on_of_nodup_map hids he hd hsame]

variable (hleaf : (Module.ofManifest M).IsLeaf owner)
  (hoverload : (Module.ofManifest M).IsOverload owner x)
  (hpublic : x.access = .public) (hidle : x.IsIdle)

include hleaf hoverload hpublic hidle

omit hold hnew in
/-- A member of the type keeps its record, or its identifier is at risk. -/
theorem mem_members_or_atRisk (ht : (Module.ofManifest M).classify owner = .ok t)
    (ht' : (Module.ofManifest (M.addMethod owner x)).classify (owner.gain x owner) = .ok t')
    {r : MemberRecord} (hr : r ∈ t.members) :
    r ∈ t'.members ∨ r.id ∈ (Module.ofManifest M).idsAtRisk owner x := by
  have hout : SameOutline (owner.gain x) _ _ := sameOutline_addMethod hkeys howner
  obtain ⟨⟨member, position⟩, hmember, hclassify⟩ := (Module.mem_members_iff ht r).mp hr
  -- The flag for hiding is all of a record that the added method can change.
  by_cases hhides : ∀ y, member = .method y →
      (owner.gain x owner).hides ((Module.ofManifest (M.addMethod owner x)).visibleMethods
        (owner.gain x owner)) y = owner.hides ((Module.ofManifest M).visibleMethods owner) y
  · refine Or.inl ((Module.mem_members_iff ht' r).mpr ⟨(member, position), ?_, ?_⟩)
    · rw [Definition.gain_self, Definition.addMethod_members_zipIdx]
      exact List.mem_append_left _ hmember
    · rw [hout.sameSupertypes.classify (hout.keepsOutline owner)
        (fun l _ => hidle.gainsIdle_gain l) (hleaf.slotsStay_gain howner) position hhides]
      exact hclassify
  · push Not at hhides
    obtain ⟨y, rfl, hne⟩ := hhides
    have hy : (position, y) ∈ owner.methods :=
      List.mem_filterMap.mpr ⟨(.method y, position), hmember, rfl⟩
    have hbegins := beginsToHide_of_hides_ne hout hleaf howner hpublic hidle hoverload hy hne
    exact Or.inr ⟨position, y, r, hy, hbegins, MemberContext.classify_method.mp hclassify, rfl⟩

omit hoverload hpublic in
/-- Only the type itself is reported as changed. -/
theorem classify_of_mem_changedTypes (hids : old.typeIds.Nodup) {c : TypeChange}
    (hc : c ∈ (Diff.compare old new).changedTypes) :
    ∃ t t', (Module.ofManifest M).classify owner = .ok t
      ∧ (Module.ofManifest (M.addMethod owner x)).classify (owner.gain x owner) = .ok t'
      ∧ t' ∈ new.types ∧ t.changeTo? t' = some c := by
  obtain ⟨t, ht, t', hfind, hchange⟩ := Diff.mem_changedTypes.mp hc
  obtain ⟨ht', hid⟩ := Document.findType_eq_some hfind
  obtain ⟨d, hd, hclassify⟩ := (Module.mem_types_iff hold t).mp ht
  rw [Module.accepted_nil] at hd
  have hclassify' := classify_of_id hkeys howner hold hnew hids ht' hd
    (hid.trans (Module.id_of_classify hclassify))
  by_cases hne : d = owner
  · subst hne
    exact ⟨t, t', hclassify, hclassify', ht', hchange⟩
  · rw [classify_gain_of_ne (sameOutline_addMethod hkeys howner) hleaf hd hidle hne,
      hclassify] at hclassify'
    obtain rfl := Except.ok.inj hclassify'
    rw [changeTo?_self] at hchange
    exact absurd hchange nofun

/-- Only identifiers at risk are lost. -/
theorem atRisk_of_removed (hids : old.typeIds.Nodup) {c : TypeChange}
    (hc : c ∈ (Diff.compare old new).changedTypes) :
    c.id = ((Module.ofManifest M).typeHead owner).id
      ∧ ∀ id ∈ c.removed, id ∈ (Module.ofManifest M).idsAtRisk owner x
        ∧ ∃ t' ∈ new.types, t'.id = ((Module.ofManifest M).typeHead owner).id
          ∧ id ∉ t'.memberIds := by
  obtain ⟨t, t', ht, ht', hmem', hchange⟩ :=
    classify_of_mem_changedTypes hkeys howner hold hnew hleaf hidle hids hc
  obtain ⟨hid, hremoved⟩ := changeTo?_eq_some hchange
  have hhead : t'.id = ((Module.ofManifest M).typeHead owner).id := by
    have hout : SameOutline (owner.gain x) _ _ := sameOutline_addMethod hkeys howner
    rw [Module.id_of_classify ht', hout.sameSupertypes.typeHead (hout.keepsOutline owner)]
  refine ⟨hid.trans (Module.id_of_classify ht), fun id hlost => ?_⟩
  rw [hremoved, mem_missingFrom] at hlost
  obtain ⟨hbefore, hafter⟩ := hlost
  obtain ⟨r, hr, rfl⟩ := List.mem_map.mp hbefore
  rcases mem_members_or_atRisk hkeys howner hleaf hoverload hpublic hidle ht ht' hr with
    hkept | hrisk
  · exact absurd (List.mem_map_of_mem hkept) hafter
  · exact ⟨hrisk, t', hmem', hhead, hafter⟩

omit hleaf hoverload hpublic hidle in
/-- An identifier at risk that no member of the type bears afterwards breaks. -/
theorem isBreaking_of_atRisk (hids : old.typeIds.Nodup) {id : String}
    (hrisk : id ∈ (Module.ofManifest M).idsAtRisk owner x) (hmem' : t' ∈ new.types)
    (hhead : t'.id = ((Module.ofManifest M).typeHead owner).id) (hafter : id ∉ t'.memberIds) :
    (Diff.compare old new).isBreaking = true := by
  obtain ⟨position, y, r, hy, -, hr, rfl⟩ := hrisk
  have howner' : owner ∈ (Module.ofManifest M).accepted [] := by
    rwa [Module.accepted_nil]
  obtain ⟨t, ht⟩ := Module.exists_classify hold howner'
  have hmem : t ∈ old.types := (Module.mem_types_iff hold t).mpr ⟨owner, howner', ht⟩
  have hid : t'.id = t.id := hhead.trans (Module.id_of_classify ht).symm
  have hfind : new.findType t.id = some t' := by
    rw [← hid]
    refine Document.findType_of_nodup ?_ hmem'
    rwa [typeIds_addMethod hkeys howner hold hnew]
  have hbefore : r.id ∈ t.memberIds :=
    List.mem_map_of_mem (Module.mem_members_of_method ht hy hr)
  by_contra hkeeps
  obtain ⟨u, hu, hsubset⟩ := Diff.isBreaking_compare.mp (Bool.not_eq_true _ ▸ hkeeps) t hmem
  obtain rfl : u = t' := Option.some.inj (hu.symm.trans hfind)
  exact hafter (hsubset hbefore)

end

/-! ## Overloads -/

/-- A public method that is neither virtual nor abstract and has no rows is
added to a type, not an interface, that no base and no interface names. It is an
overload there, and both manifests have documents. -/
structure AddsOverload (M : Manifest) (owner : Definition) (x : Method)
    (old new : Document) : Prop where
  keys : (M.definitions.map (·.key)).Nodup
  defined : owner ∈ M.types
  notInterface : owner.isInterface = false
  unnamed : ∀ t ∈ M.supertypes, (Module.ofManifest M).resolve t ≠ some owner
  isPublic : x.access = .public
  notAbstract : x.isAbstract = false
  idle : x.IsIdle
  overload : (Module.ofManifest M).IsOverload owner x
  before : (Module.ofManifest M).generate [] = .ok old
  after : (Module.ofManifest (M.addMethod owner x)).generate [] = .ok new
  ids : old.typeIds.Nodup

/-- An overload adds to its type and to nothing else. It breaks exactly when it
makes another method of the type hide whose identifier is then gone: one with
the same structural signature and another number of generic parameters. -/
theorem compare_addMethod {M : Manifest} {owner : Definition} {x : Method}
    {old new : Document} (h : AddsOverload M owner x old new)
    (hleaf : (Module.ofManifest M).IsLeaf owner) :
    (Diff.compare old new).removedTypes = []
      ∧ (Diff.compare old new).addedTypes = []
      ∧ (∀ c ∈ (Diff.compare old new).changedTypes,
          c.id = ((Module.ofManifest M).typeHead owner).id
            ∧ ∀ id ∈ c.removed, id ∈ (Module.ofManifest M).idsAtRisk owner x)
      ∧ ((Diff.compare old new).isBreaking = true
          ↔ ∃ id ∈ (Module.ofManifest M).idsAtRisk owner x, ∃ t' ∈ new.types,
              t'.id = ((Module.ofManifest M).typeHead owner).id ∧ id ∉ t'.memberIds) := by
  have hsame := typeIds_addMethod h.keys h.defined h.before h.after
  have hremovedTypes : (Diff.compare old new).removedTypes = [] := by
    rw [Diff.compare, hsame, missingFrom_self]
  have haddedTypes : (Diff.compare old new).addedTypes = [] := by
    rw [Diff.compare, hsame, missingFrom_self]
  have hchanged : ∀ c ∈ (Diff.compare old new).changedTypes, _ := fun c hc =>
    atRisk_of_removed h.keys h.defined h.before h.after hleaf h.overload h.isPublic h.idle
      h.ids hc
  refine ⟨hremovedTypes, haddedTypes, fun c hc => ?_, fun hbreaking => ?_, ?_⟩
  · exact ⟨(hchanged c hc).1, fun id hid => ((hchanged c hc).2 id hid).1⟩
  · rw [Diff.isBreaking, hremovedTypes, List.isEmpty_nil, Bool.not_true,
      Bool.false_or] at hbreaking
    obtain ⟨c, hc, hnonempty⟩ := List.any_eq_true.mp hbreaking
    obtain ⟨id, hid⟩ := List.exists_mem_of_ne_nil c.removed (by simpa using hnonempty)
    exact ⟨id, (hchanged c hc).2 id hid⟩
  · rintro ⟨id, hrisk, t', hmem', hhead, hafter⟩
    exact isBreaking_of_atRisk h.keys h.defined h.before h.after h.ids hrisk hmem' hhead hafter

/-! ## Three shops -/

def findMethod (genericParams : List String) (params : List Parameter) : Method :=
  { Method.plain "Find" with
    params := params
    genericParams := genericParams.map .unconstrained }

def shop : Definition := openClass "Shop" [] none [findMethod [] []]

def emptyShop : Definition := openClass "Shop" [] none []

/-- An annex to anything, and a kiosk in the annex to a shop. -/
def annexes : List Definition :=
  [openClass "Annex" ["T"] (some (.param "T")) [],
   openClass "Kiosk" [] (some (.named "Annex" [.named "Shop" []])) [findMethod [] []]]

/-- `Find<T>()` makes `Find()` hide. And a kiosk, which derives from the shop
although nothing names the shop as a base, hides a `Find()` of the shop. -/
theorem overload_breaks :
    (∃ old new, AddsOverload ⟨"Mall", [shop], [], []⟩ shop (findMethod ["T"] []) old new
      ∧ (Diff.compare old new).isBreaking = true)
    ∧ ∃ old new, AddsOverload ⟨"Mall", emptyShop :: annexes, [], []⟩ emptyShop
        (findMethod [] []) old new
      ∧ (Diff.compare old new).isBreaking = true := by
  constructor
  · have hoverload : (Module.ofManifest ⟨"Mall", [shop], [], []⟩).IsOverload shop
        (findMethod ["T"] []) := by
      unfold Module.IsOverload
      decide
    exact ⟨_, _, ⟨by decide, by decide, rfl, by decide, rfl, rfl, ⟨rfl, rfl⟩, hoverload,
      rfl, rfl, by decide⟩, by decide⟩
  · have hoverload : (Module.ofManifest ⟨"Mall", emptyShop :: annexes, [], []⟩).IsOverload
        emptyShop (findMethod [] []) := by
      unfold Module.IsOverload
      decide
    exact ⟨_, _, ⟨by decide, by decide, rfl, by decide, rfl, rfl, ⟨rfl, rfl⟩, hoverload,
      rfl, rfl, by decide⟩, by decide⟩

def numberParameter : Parameter := .plain "number" (.named "System.Int32" [])

/-- `Find(System.Int32)` next to `Find()` is an addition. -/
theorem overload_adds :
    ∃ old new, AddsOverload ⟨"Mall", [shop], [], []⟩ shop
        (findMethod [] [numberParameter]) old new
      ∧ (Module.ofManifest ⟨"Mall", [shop], [], []⟩).IsLeaf shop
      ∧ (Diff.compare old new).addedTypes = []
      ∧ (Diff.compare old new).isBreaking = false := by
  have hleaf : (Module.ofManifest ⟨"Mall", [shop], [], []⟩).IsLeaf shop :=
    Module.isLeaf_of_unnamed (by decide) (by decide)
  have hoverload : (Module.ofManifest ⟨"Mall", [shop], [], []⟩).IsOverload shop
      (findMethod [] [numberParameter]) := by
    unfold Module.IsOverload
    decide
  have hadds : AddsOverload ⟨"Mall", [shop], [], []⟩ shop
      (findMethod [] [numberParameter]) _ _ :=
    ⟨by decide, by decide, rfl, by decide, rfl, rfl, ⟨rfl, rfl⟩, hoverload, rfl, rfl,
      by decide⟩
  obtain ⟨-, hadded, -, hbreaking⟩ := compare_addMethod hadds hleaf
  refine ⟨_, _, hadds, hleaf, hadded, Bool.eq_false_iff.mpr fun htrue => ?_⟩
  obtain ⟨id, ⟨position, y, r, hy, hbegins, -⟩, -⟩ := hbreaking.mp htrue
  have hmethods : shop.methods = [(0, findMethod [] [])] := rfl
  obtain ⟨-, rfl⟩ : position = 0 ∧ y = findMethod [] [] := by simpa [hmethods] using hy
  exact absurd hbegins.signature (by decide)

end ApiBaseline
