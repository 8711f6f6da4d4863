import ApiBaseline.Proofs.Generate.Faults
import ApiBaseline.Proofs.Metadata.BaseChain
import ApiBaseline.Proofs.Metadata.Leaf
import Mathlib.Data.List.Chain

/-!
# Overriding with less known of the bases

When the entries of a definition are taken out of a manifest, references to it
become opaque and nothing else changes (`resolve_without`). A hierarchy keeps its
levels up to that definition (`hierarchy_without`), so whatever a method overrides
below it is still found. The level that the hierarchy then ends at has a base
nothing is known of, and such a base is taken to have every slot. So a method
that overrides something before overrides something afterwards
(`isOverride_without`), wherever the hierarchy is cut off, as long as the two roots
and interfaces, which are asked about differently, are not concerned.
-/

namespace ApiBaseline

/-- The manifest without the entries of a name and arity. -/
def Manifest.without (M : Manifest) (key : String × Nat) : Manifest :=
  { M with
    types := M.types.filter (·.key != key)
    references := M.references.filter (·.key != key) }

theorem Manifest.definitions_without (M : Manifest) (key : String × Nat) :
    (M.without key).definitions = M.definitions.filter (·.key != key) :=
  (List.filter_append ..).symm

/-- What a root points at is named like it. -/
theorem TypeRef.isRoot_of_close {l : Level} {t : TypeRef} {name : String}
    (ht : t.isRoot = true) (hname : (l.close t).definitionName? = some name) :
    name = objectName ∨ name = valueTypeName := by
  cases t with
  | named n args =>
      obtain rfl : n = name := Option.some.inj hname
      simpa [isRoot, definitionName?] using ht
  | param n => cases ht
  | array element rank => cases ht
  | byRef target => cases ht
  | pointer target => cases ht

namespace Module

variable {M : Manifest} {key : String × Nat}

/-! ## Hierarchies that are cut off -/

/-- Entries with the key asked for are all gone, or all still there. -/
theorem find?_filter_key (ds : List Definition) (k : String × Nat) :
    (ds.filter (·.key != key)).find? (·.key == k)
      = (ds.find? (·.key == k)).filter (·.key != key) := by
  by_cases hk : k = key
  · subst hk
    have hgone : (ds.filter (·.key != k)).find? (·.key == k) = none :=
      List.find?_eq_none.mpr fun d hd => by simpa using (List.mem_filter.mp hd).2
    rw [hgone, eq_comm, Option.filter_eq_none_iff]
    intro d hd
    simpa using List.find?_some hd
  · have hsame : (ds.filter (·.key != key)).find? (·.key == k) = ds.find? (·.key == k) := by
      rw [List.find?_filter]
      refine congrArg (ds.find? ·) (funext fun d => ?_)
      by_cases hd : d.key = k <;> simp [hd, hk]
    rw [hsame]
    cases hfind : ds.find? (·.key == k) with
    | none => rfl
    | some d =>
        have hkey : d.key = k := by simpa using List.find?_some hfind
        exact (Option.filter_some_pos (by simpa [hkey] using hk)).symm

theorem resolve_without (t : TypeRef) :
    (ofManifest (M.without key)).resolve t
      = ((ofManifest M).resolve t).filter (·.key != key) := by
  unfold resolve
  cases t.definitionName? with
  | none => rfl
  | some name =>
      rw [Option.bind_some, lookup_eq_find?, M.definitions_without, find?_filter_key,
        ← lookup_eq_find?, Option.bind_some]

theorem nextLevel?_without (seen : List (String × Nat)) (l : Level) :
    (ofManifest (M.without key)).nextLevel? seen l
      = ((ofManifest M).nextLevel? seen l).filter (·.definition.key != key) := by
  unfold nextLevel?
  cases l.base? with
  | none => rfl
  | some base =>
      simp only [resolve_without]
      cases (ofManifest M).resolve base with
      | none => rfl
      | some d =>
          by_cases hkey : d.key = key
          · by_cases hseen : key ∈ seen <;> simp [Option.filter_some, hkey, hseen]
          · by_cases hseen : d.key ∈ seen <;> simp [Option.filter_some, hkey, hseen]

theorem climb_without (more : Nat) (seen : List (String × Nat)) (l : Level) :
    (ofManifest (M.without key)).climb more seen l
      = l :: (((ofManifest M).climb more seen l).drop 1).takeWhile (·.definition.key != key) := by
  induction more generalizing seen l with
  | zero => rfl
  | succ more ih =>
      rw [climb, climb, nextLevel?_without]
      cases (ofManifest M).nextLevel? seen l with
      | none => rfl
      | some up =>
          simp only [List.drop_one, List.tail_cons]
          rw [climb_eq_cons (ofManifest M), List.takeWhile_cons]
          by_cases hkey : up.definition.key = key
          · simp [Option.filter_some, hkey]
          · simp [Option.filter_some, hkey, ih]

/-- The hierarchy ends below the definition that is gone. -/
theorem hierarchy_without (d : Definition) :
    (ofManifest (M.without key)).hierarchy d
      = ⟨d, d.ownArgs⟩
        :: (((ofManifest M).hierarchy d).drop 1).takeWhile (·.definition.key != key) :=
  climb_without _ _ _

/-! ## What overrides -/

/-- A level below one with a definition that is neither root has a base that is no
root, and nothing need be known of it. -/
theorem offersBeyond_of_isBaseOf {below up : Level}
    (hobject : below.definition.name = TypeRef.objectName → below.definition.base = none)
    (hclass : below.definition.isInterface = false)
    (hup : (ofManifest M).IsBaseOf below up)
    (hname : up.definition.name ≠ TypeRef.objectName)
    (hvalue : up.definition.name ≠ TypeRef.valueTypeName) (x : Method) :
    below.definition.offersBeyond x = true := by
  obtain ⟨base, hbase, hres, -, -⟩ := hup
  obtain ⟨t, ht, rfl⟩ := Option.map_eq_some_iff.mp hbase
  have hnotRoot : t.isRoot = false := by
    refine Bool.eq_false_iff.mpr fun hroot => ?_
    have hdefinition : (below.close t).definitionName? = some up.definition.name := by
      rw [(resolve_eq_some hres).2.1]
      rfl
    rcases TypeRef.isRoot_of_close hroot hdefinition with h | h
    · exact hname h
    · exact hvalue h
  have hnotObject : below.definition.name ≠ TypeRef.objectName := fun h => by
    rw [hobject h] at ht
    cases ht
  simp [Definition.offersBeyond, hclass, hnotObject, ht, hnotRoot]

section

variable {d R : Definition}
  (hroot : ∀ e ∈ M.definitions, e.name = TypeRef.objectName → e.base = none)
  (hd : d ∈ M.definitions)
  (hclasses : ∀ l ∈ (ofManifest M).hierarchy d, l.definition.isInterface = false)
  (hobject : R.name ≠ TypeRef.objectName) (hvalue : R.name ≠ TypeRef.valueTypeName)

include hroot hd hclasses hobject hvalue

/-- Where the hierarchy is cut off, its last level is taken to offer every slot. -/
theorem hasBaseSlot_without {x : Method} (h : (ofManifest M).hasBaseSlot d x = true) :
    (ofManifest (M.without R.key)).hasBaseSlot d x = true := by
  have hsplit := List.takeWhile_append_dropWhile
    (p := fun l : Level => l.definition.key != R.key) (l := ((ofManifest M).hierarchy d).drop 1)
  have hlevels := (ofManifest M).hierarchy_eq_cons d
  cases hcut : (((ofManifest M).hierarchy d).drop 1).dropWhile (·.definition.key != R.key) with
  | nil =>
      rw [hcut, List.append_nil] at hsplit
      rw [hasBaseSlot, hierarchy_without, hsplit, ← hlevels]
      exact h
  | cons up above =>
      have hup : up.definition.key = R.key := by
        have hhead := List.head?_dropWhile_not (fun l : Level => l.definition.key != R.key)
          (((ofManifest M).hierarchy d).drop 1)
        rw [hcut] at hhead
        simpa using hhead
      obtain ⟨hupName, -⟩ := Prod.ext_iff.mp hup
      obtain ⟨last, hlast⟩ : ∃ last,
          ((ofManifest (M.without R.key)).hierarchy d).getLast? = some last := by
        rw [hierarchy_without]
        exact ⟨_, List.getLast?_eq_some_getLast (List.cons_ne_nil _ _)⟩
      have hchain : ((ofManifest (M.without R.key)).hierarchy d ++ up :: above).IsChain
          (ofManifest M).IsBaseOf := by
        rw [hierarchy_without, List.cons_append, ← hcut, hsplit, ← hlevels]
        exact isChain_climb _ _ _
      have hstep : (ofManifest M).IsBaseOf last up :=
        (List.isChain_append.mp hchain).2.2 last hlast up rfl
      have hmem : last ∈ (ofManifest M).hierarchy d := by
        rw [hlevels, ← hsplit, ← List.cons_append, ← hierarchy_without]
        exact List.mem_append_left _ (List.mem_of_getLast? hlast)
      have hbeyond := offersBeyond_of_isBaseOf
        (hroot _ (definition_mem_of_mem_climb hd last hmem)) (hclasses last hmem) hstep
        (fun h => hobject (hupName.symm.trans h)) (fun h => hvalue (hupName.symm.trans h)) x
      rw [hasBaseSlot, hlast, Option.any_some, hbeyond, Bool.or_true]

/-- A method that overrides something still does so when less is known of its bases. -/
theorem isOverride_without {position : Nat} {x : Method} {r : MemberRecord}
    (h : ((ofManifest M).memberContext d).method position x = .ok r)
    (hoverride : r.isOverride = true) :
    ∃ r', ((ofManifest (M.without R.key)).memberContext d).method position x = .ok r'
      ∧ r'.isOverride = true := by
  obtain ⟨parameters, hparameters, hr⟩ := bind_eq_ok h
  obtain rfl := Except.ok.inj hr
  -- Whether there are records of the parameters is up to the parameters alone.
  have hclassified : ∃ record, ((ofManifest M).memberContext d).classify position (.method x)
      = .ok record := ⟨_, congrArg (Except.map some) h⟩
  rw [((ofManifest M).classify_member_reportsFirst d _ _).ok_iff,
    ← ((ofManifest (M.without R.key)).classify_member_reportsFirst d _ _).ok_iff] at hclassified
  obtain ⟨record, hrecord⟩ := hclassified
  obtain ⟨r', hr', rfl⟩ := map_eq_ok hrecord
  refine ⟨r', hr', ?_⟩
  obtain ⟨parameters', -, hr'⟩ := bind_eq_ok hr'
  obtain rfl := Except.ok.inj hr'
  have hslot : (x.isVirtual && !x.isNewSlot) = true ∧ (ofManifest M).hasBaseSlot d x = true :=
    Bool.and_eq_true_iff.mp hoverride
  exact Bool.and_eq_true_iff.mpr
    ⟨hslot.1, hasBaseSlot_without hroot hd hclasses hobject hvalue hslot.2⟩

end

/-! ## A bookcase of unknown make -/

/-- A bookcase takes books like the bookshelf that it is made of. -/
def bookcase : Definition :=
  openClass "Bookcase" [] (some (.named "Bookshelf" [])) [virtualMethod false [] [.named "Book" []]]

def study : Manifest := library [shelf, bookshelf, bookcase]

/-- Without the bookshelf the bookcase is not known to be a shelf any more, but to put a
book on it still overrides something. -/
theorem bookcase_overrides_unknown :
    ((ofManifest (study.without bookshelf.key)).hierarchy bookcase).map (·.definition)
        = [bookcase]
      ∧ ∃ r, ((ofManifest (study.without bookshelf.key)).memberContext bookcase).method 0
          (virtualMethod false [] [.named "Book" []]) = .ok r
        ∧ r.isOverride = true := by
  obtain ⟨r, hr, hoverride⟩ : ∃ r, ((ofManifest study).memberContext bookcase).method 0
      (virtualMethod false [] [.named "Book" []]) = .ok r ∧ r.isOverride = true :=
    ⟨_, rfl, rfl⟩
  exact ⟨by decide, isOverride_without (M := study) (R := bookshelf) (by decide) (by decide)
    (by decide) (by decide) (by decide) hr hoverride⟩

end Module

end ApiBaseline
