import ApiBaseline.Proofs.Diff.Change
import Mathlib.Data.Finset.Basic

/-!
# Verdicts as containment of keys

A user of a document depends on types and on members of types, each of them
known by its identifier. When a document has no identifier of a type twice, these
keys are all that a comparison looks at: it breaks when a key is lost and reports
nothing when the keys are the same (`compare_keys`). So what does not break can
be put in a row, and the order of types and members does not matter.
-/

namespace ApiBaseline

/-- What a user depends on: a type, or a member of a type. -/
inductive Key where
  | type (id : String)
  | member (typeId id : String)
  deriving DecidableEq

def TypeRecord.keys (t : TypeRecord) : List Key :=
  .type t.id :: t.memberIds.map (.member t.id)

def Document.keys (d : Document) : Finset Key := (d.types.flatMap (·.keys)).toFinset

/-- The same type with its members in another order. -/
def TypeRecord.Reorders (t u : TypeRecord) : Prop :=
  ∃ members, members.Perm t.members ∧ u = { t with members := members }

/-- The same types in another order, with their members in other orders. -/
def Document.Reorders (d e : Document) : Prop :=
  ∃ types, List.Forall₂ TypeRecord.Reorders d.types types ∧ types.Perm e.types

namespace Document

theorem type_mem_keys {d : Document} {id : String} :
    Key.type id ∈ d.keys ↔ ∃ t ∈ d.types, t.id = id := by
  simp [keys, TypeRecord.keys, eq_comm]

theorem member_mem_keys {d : Document} {typeId id : String} :
    Key.member typeId id ∈ d.keys ↔ ∃ t ∈ d.types, t.id = typeId ∧ id ∈ t.memberIds := by
  simp [keys, TypeRecord.keys, and_comm]

/-- Each type stands for its own keys. -/
theorem keys_subset {a b : Document} (hb : b.typeIds.Nodup) :
    a.keys ⊆ b.keys
      ↔ ∀ t ∈ a.types, ∃ u, b.findType t.id = some u ∧ t.memberIds ⊆ u.memberIds := by
  constructor
  · intro h t ht
    obtain ⟨u, hu, hid⟩ := type_mem_keys.mp (h (type_mem_keys.mpr ⟨t, ht, rfl⟩))
    refine ⟨u, hid ▸ findType_of_nodup hb hu, fun id hmember => ?_⟩
    -- The member is one of a type with the same identifier, and that is `u`.
    obtain ⟨v, hv, hid', hmember⟩ :=
      member_mem_keys.mp (h (member_mem_keys.mpr ⟨t, ht, rfl, hmember⟩))
    rwa [List.inj_on_of_nodup_map hb hu hv (hid.trans hid'.symm)]
  · intro h k hk
    cases k with
    | type id =>
        obtain ⟨t, ht, rfl⟩ := type_mem_keys.mp hk
        obtain ⟨u, hu, -⟩ := h t ht
        exact type_mem_keys.mpr ⟨u, findType_eq_some hu⟩
    | member typeId id =>
        obtain ⟨t, ht, rfl, hmember⟩ := member_mem_keys.mp hk
        obtain ⟨u, hu, hsubset⟩ := h t ht
        obtain ⟨hmem, hid⟩ := findType_eq_some hu
        exact member_mem_keys.mpr ⟨u, hmem, hid, hsubset hmember⟩

end Document

namespace Diff

variable {a b : Document}

theorem isBreaking_eq_false_iff (hb : b.typeIds.Nodup) :
    (compare a b).isBreaking = false ↔ a.keys ⊆ b.keys := by
  rw [isBreaking_compare, Document.keys_subset hb]

theorem isEmpty_iff (ha : a.typeIds.Nodup) (hb : b.typeIds.Nodup) :
    (compare a b).isEmpty = true ↔ a.keys = b.keys := by
  rw [isEmpty_compare, Finset.Subset.antisymm_iff, Document.keys_subset hb,
    Document.keys_subset ha]
  constructor
  · rintro ⟨hsame, hnew⟩
    refine ⟨fun t ht => (hsame t ht).imp fun _ hu => ⟨hu.1, hu.2.1⟩, fun u hu => ?_⟩
    obtain ⟨t, ht, hid⟩ := List.mem_map.mp (hnew (List.mem_map_of_mem hu))
    obtain ⟨v, hv, -, hback⟩ := hsame t ht
    rw [hid, Document.findType_of_nodup hb hu] at hv
    obtain rfl := Option.some.inj hv
    exact ⟨t, hid ▸ Document.findType_of_nodup ha ht, hback⟩
  · rintro ⟨hforth, hback⟩
    refine ⟨fun t ht => ?_, fun id hid => ?_⟩
    · obtain ⟨u, hu, hsubset⟩ := hforth t ht
      obtain ⟨hmem, hid⟩ := Document.findType_eq_some hu
      obtain ⟨v, hv, hsubset'⟩ := hback u hmem
      rw [hid, Document.findType_of_nodup ha ht] at hv
      obtain rfl := Option.some.inj hv
      exact ⟨u, hu, hsubset, hsubset'⟩
    · obtain ⟨u, hu, rfl⟩ := List.mem_map.mp hid
      obtain ⟨t, ht, -⟩ := hback u hu
      obtain ⟨hmem, hid⟩ := Document.findType_eq_some ht
      exact hid ▸ List.mem_map_of_mem hmem

end Diff

/-! ## Orders -/

section

variable {ts us : List TypeRecord} (h : List.Forall₂ TypeRecord.Reorders ts us)

include h

theorem map_id_eq_of_reorders : ts.map (·.id) = us.map (·.id) := by
  induction h with
  | nil => rfl
  | cons hhead _ ih =>
      obtain ⟨members, -, rfl⟩ := hhead
      rw [List.map_cons, List.map_cons, ih]
      rfl

theorem flatMap_keys_perm_of_reorders :
    (ts.flatMap (·.keys)).Perm (us.flatMap (·.keys)) := by
  induction h with
  | nil => exact .nil
  | cons hhead _ ih =>
      obtain ⟨members, hperm, rfl⟩ := hhead
      exact (((hperm.symm.map (·.id)).map _).cons _).append ih

end

namespace Document.Reorders

variable {d e : Document} (h : d.Reorders e)

include h

theorem typeIds : d.typeIds.Perm e.typeIds := by
  obtain ⟨types, hmembers, hperm⟩ := h
  rw [Document.typeIds, map_id_eq_of_reorders hmembers]
  exact hperm.map _

theorem keys : d.keys = e.keys := by
  obtain ⟨types, hmembers, hperm⟩ := h
  exact List.toFinset_eq_of_perm _ _
    ((flatMap_keys_perm_of_reorders hmembers).trans (hperm.flatMap_right _))

end Document.Reorders

/-! ## The verdicts -/

/-- A comparison breaks exactly when a key is lost, and is empty exactly when the
keys are the same. So comparisons that do not break compose, and no verdict
depends on an order. -/
theorem compare_keys {a b : Document} (ha : a.typeIds.Nodup) (hb : b.typeIds.Nodup) :
    ((Diff.compare a b).isBreaking = true ↔ ¬ a.keys ⊆ b.keys)
      ∧ ((Diff.compare a b).isEmpty = true ↔ a.keys = b.keys)
      ∧ (∀ c : Document, c.typeIds.Nodup → (Diff.compare a b).isBreaking = false →
          (Diff.compare b c).isBreaking = false → (Diff.compare a c).isBreaking = false)
      ∧ ∀ a' b' : Document, a.Reorders a' → b.Reorders b' →
          (Diff.compare a' b').isBreaking = (Diff.compare a b).isBreaking
            ∧ (Diff.compare a' b').isEmpty = (Diff.compare a b).isEmpty := by
  refine ⟨?_, Diff.isEmpty_iff ha hb, fun c hc hab hbc => ?_, fun a' b' hra hrb => ?_⟩
  · rw [← Diff.isBreaking_eq_false_iff hb, Bool.not_eq_false]
  · rw [Diff.isBreaking_eq_false_iff hb] at hab
    rw [Diff.isBreaking_eq_false_iff hc] at hbc ⊢
    exact hab.trans hbc
  · have ha' : a'.typeIds.Nodup := hra.typeIds.nodup_iff.mp ha
    have hb' : b'.typeIds.Nodup := hrb.typeIds.nodup_iff.mp hb
    refine ⟨Bool.eq_iff_iff.mpr ?_, Bool.eq_iff_iff.mpr ?_⟩
    · rw [← Bool.not_eq_false, ← Bool.not_eq_false (Diff.isBreaking _),
        Diff.isBreaking_eq_false_iff hb', Diff.isBreaking_eq_false_iff hb, hra.keys, hrb.keys]
    · rw [Diff.isEmpty_iff ha' hb', Diff.isEmpty_iff ha hb, hra.keys, hrb.keys]

/-! ## A cabinet -/

def cabinet (drawers : List String) : TypeRecord where
  name := "Cabinet"
  kind := .class
  visibility := .public
  isStatic := false
  isAbstract := false
  isSealed := false
  baseType := none
  interfaces := []
  constraints := []
  members := drawers.map (.plain .field · .public)

/-- One drawer more breaks nothing, wherever it is put; one less breaks. -/
theorem cabinet_gains_drawer :
    (Diff.compare ⟨"Room", [cabinet ["left"]]⟩ ⟨"Room", [cabinet ["right", "left"]]⟩).isBreaking
        = false
      ∧ (Diff.compare ⟨"Room", [cabinet ["right", "left"]]⟩
          ⟨"Room", [cabinet ["left"]]⟩).isBreaking = true := by
  have hforth := (compare_keys (a := ⟨"Room", [cabinet ["left"]]⟩)
    (b := ⟨"Room", [cabinet ["right", "left"]]⟩) (by decide) (by decide)).1
  have hback := (compare_keys (a := ⟨"Room", [cabinet ["right", "left"]]⟩)
    (b := ⟨"Room", [cabinet ["left"]]⟩) (by decide) (by decide)).1
  refine ⟨Bool.eq_false_iff.mpr fun h => hforth.mp h ?_, hback.mpr ?_⟩ <;> decide

end ApiBaseline
