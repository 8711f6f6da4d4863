import ApiBaseline.Diff
import Mathlib.Data.List.Nodup

/-!
# What a comparison finds

A comparison looks each old type up in the new document and compares the two
lists of members. So nothing is removed when every old type finds one with its
members and possibly more (`isBreaking_compare`), and nothing at all is reported
when it finds one with the same members and no type is new (`isEmpty_compare`).
-/

namespace ApiBaseline

/-! ## Lists of identifiers -/

theorem mem_missingFrom {others xs : List String} {id : String} :
    id ∈ missingFrom others xs ↔ id ∈ xs ∧ id ∉ others := by
  simp [missingFrom]

theorem missingFrom_eq_nil {others xs : List String} :
    missingFrom others xs = [] ↔ xs ⊆ others := by
  simp [missingFrom, List.subset_def]

theorem missingFrom_self (xs : List String) : missingFrom xs xs = [] :=
  missingFrom_eq_nil.mpr (List.Subset.refl xs)

/-! ## Changes of one type -/

theorem changeTo?_eq_some {old new : TypeRecord} {c : TypeChange}
    (h : old.changeTo? new = some c) :
    c.id = old.id ∧ c.removed = missingFrom new.memberIds old.memberIds := by
  simp only [TypeRecord.changeTo?] at h
  split at h
  · exact absurd h nofun
  · obtain rfl := Option.some.inj h
    exact ⟨rfl, rfl⟩

theorem changeTo?_eq_none {old new : TypeRecord} :
    old.changeTo? new = none
      ↔ old.memberIds ⊆ new.memberIds ∧ new.memberIds ⊆ old.memberIds := by
  simp only [TypeRecord.changeTo?, ite_eq_left_iff, reduceCtorEq, imp_false, not_not,
    Bool.and_eq_true, List.isEmpty_iff, missingFrom_eq_nil]

theorem changeTo?_self (t : TypeRecord) : t.changeTo? t = none :=
  changeTo?_eq_none.mpr ⟨List.Subset.refl _, List.Subset.refl _⟩

/-! ## Types by identifier -/

namespace Document

variable {document : Document}

theorem findType_eq_some {id : String} {t : TypeRecord} (h : document.findType id = some t) :
    t ∈ document.types ∧ t.id = id :=
  ⟨List.mem_of_find?_eq_some h, by simpa using List.find?_some h⟩

theorem exists_findType {id : String} (h : id ∈ document.typeIds) :
    ∃ t, document.findType id = some t := by
  obtain ⟨t, ht, rfl⟩ := List.mem_map.mp h
  exact Option.isSome_iff_exists.mp (List.find?_isSome.mpr ⟨t, ht, beq_self_eq_true _⟩)

/-- With distinct identifiers a type is found by its own. -/
theorem findType_of_nodup (hids : document.typeIds.Nodup) {t : TypeRecord}
    (ht : t ∈ document.types) : document.findType t.id = some t := by
  obtain ⟨u, hu⟩ := exists_findType (List.mem_map_of_mem ht)
  obtain ⟨hmem, hid⟩ := findType_eq_some hu
  rw [hu, List.inj_on_of_nodup_map hids hmem ht hid]

end Document

/-! ## Verdicts -/

namespace Diff

variable {old new : Document}

theorem mem_changedTypes {c : TypeChange} :
    c ∈ (compare old new).changedTypes
      ↔ ∃ t ∈ old.types, ∃ u, new.findType t.id = some u ∧ t.changeTo? u = some c := by
  simp only [compare, List.mem_filterMap, Option.bind_eq_some_iff]

theorem removedTypes_eq_nil :
    (compare old new).removedTypes = []
      ↔ ∀ t ∈ old.types, ∃ u, new.findType t.id = some u := by
  rw [compare, missingFrom_eq_nil]
  constructor
  · exact fun h t ht => Document.exists_findType (h (List.mem_map_of_mem ht))
  · intro h id hid
    obtain ⟨t, ht, rfl⟩ := List.mem_map.mp hid
    obtain ⟨u, hu⟩ := h t ht
    obtain ⟨hmem, hsame⟩ := Document.findType_eq_some hu
    exact hsame ▸ List.mem_map_of_mem hmem

/-- Every old type finds one that has its members. -/
theorem isBreaking_compare :
    (compare old new).isBreaking = false
      ↔ ∀ t ∈ old.types, ∃ u, new.findType t.id = some u ∧ t.memberIds ⊆ u.memberIds := by
  simp only [isBreaking, Bool.or_eq_false_iff, Bool.not_eq_false', List.isEmpty_iff,
    List.any_eq_false, removedTypes_eq_nil]
  constructor
  · rintro ⟨hfound, hremoved⟩ t ht
    obtain ⟨u, hu⟩ := hfound t ht
    refine ⟨u, hu, ?_⟩
    cases hchange : t.changeTo? u with
    | none => exact (changeTo?_eq_none.mp hchange).1
    | some c =>
        have hnil := hremoved c (mem_changedTypes.mpr ⟨t, ht, u, hu, hchange⟩)
        rw [← missingFrom_eq_nil, ← (changeTo?_eq_some hchange).2]
        simpa using hnil
  · intro h
    refine ⟨fun t ht => (h t ht).imp fun _ hu => hu.1, fun c hc => ?_⟩
    obtain ⟨t, ht, u, hu, hchange⟩ := mem_changedTypes.mp hc
    obtain ⟨v, hv, hsubset⟩ := h t ht
    obtain rfl : u = v := Option.some.inj (hu.symm.trans hv)
    rw [(changeTo?_eq_some hchange).2, missingFrom_eq_nil.mpr hsubset]
    exact Bool.false_ne_true

/-- Every old type finds one with the same members, and no type is new. -/
theorem isEmpty_compare :
    (compare old new).isEmpty = true
      ↔ (∀ t ∈ old.types, ∃ u, new.findType t.id = some u
            ∧ t.memberIds ⊆ u.memberIds ∧ u.memberIds ⊆ t.memberIds)
        ∧ new.typeIds ⊆ old.typeIds := by
  have hadded : (compare old new).addedTypes = [] ↔ new.typeIds ⊆ old.typeIds :=
    missingFrom_eq_nil
  simp only [isEmpty, Bool.and_eq_true, List.isEmpty_iff, removedTypes_eq_nil, hadded]
  constructor
  · rintro ⟨⟨hfound, hnew⟩, hchanged⟩
    refine ⟨fun t ht => ?_, hnew⟩
    obtain ⟨u, hu⟩ := hfound t ht
    refine ⟨u, hu, changeTo?_eq_none.mp (Option.eq_none_iff_forall_ne_some.mpr fun c hc => ?_)⟩
    have hmem := mem_changedTypes.mpr ⟨t, ht, u, hu, hc⟩
    rw [hchanged] at hmem
    exact absurd hmem List.not_mem_nil
  · rintro ⟨h, hnew⟩
    refine ⟨⟨fun t ht => (h t ht).imp fun _ hu => hu.1, hnew⟩, ?_⟩
    refine List.eq_nil_iff_forall_not_mem.mpr fun c hc => ?_
    obtain ⟨t, ht, u, hu, hchange⟩ := mem_changedTypes.mp hc
    obtain ⟨v, hv, hsame⟩ := h t ht
    obtain rfl : u = v := Option.some.inj (hu.symm.trans hv)
    rw [changeTo?_eq_none.mpr hsame] at hchange
    exact absurd hchange nofun

end Diff

end ApiBaseline
