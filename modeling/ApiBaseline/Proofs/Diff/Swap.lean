import ApiBaseline.Proofs.Diff.Keys
import Mathlib.Data.List.Perm.Basic

/-!
# A comparison the other way

What is removed from an old document to a new one is what is added from the new one
to the old. When no document has an identifier of a type twice, a changed type is
one pair of types with the same identifier (`mem_changedTypes_iff`), which is found
from either side. So the changes of the comparison the other way are the same ones,
each turned around; their order is that of the other document (`compare_swap`).
-/

namespace ApiBaseline

/-- The change from the new type to the old one. -/
def TypeChange.swap (c : TypeChange) : TypeChange where
  id := c.id
  removed := c.added
  added := c.removed

theorem TypeChange.swap_swap (c : TypeChange) : c.swap.swap = c := rfl

/-- Something is removed or added, or else there is no change. -/
theorem changeTo?_ne_nil {old new : TypeRecord} {c : TypeChange}
    (h : old.changeTo? new = some c) : c.removed ≠ [] ∨ c.added ≠ [] := by
  simp only [TypeRecord.changeTo?] at h
  split at h
  · cases h
  · next hchange =>
    obtain rfl := Option.some.inj h
    rw [Bool.and_eq_true, List.isEmpty_iff, List.isEmpty_iff] at hchange
    exact Classical.not_and_iff_not_or_not.mp hchange

theorem changeTo?_swap {old new : TypeRecord} (hid : new.id = old.id) :
    new.changeTo? old = (old.changeTo? new).map .swap := by
  simp only [TypeRecord.changeTo?, hid, Bool.and_comm (List.isEmpty (missingFrom old.memberIds _))]
  split <;> rfl

namespace Diff

variable {a b : Document}

/-- A changed type is a pair of types with one identifier. -/
theorem mem_changedTypes_iff (hb : b.typeIds.Nodup) {c : TypeChange} :
    c ∈ (compare a b).changedTypes
      ↔ ∃ t ∈ a.types, ∃ u ∈ b.types, u.id = t.id ∧ t.changeTo? u = some c := by
  rw [mem_changedTypes]
  constructor
  · rintro ⟨t, ht, u, hfind, hchange⟩
    obtain ⟨hu, hid⟩ := Document.findType_eq_some hfind
    exact ⟨t, ht, u, hu, hid, hchange⟩
  · rintro ⟨t, ht, u, hu, hid, hchange⟩
    exact ⟨t, ht, u, hid ▸ Document.findType_of_nodup hb hu, hchange⟩

/-- What has changed is a change of either side, and is there on both. -/
theorem mem_changedTypes_swap (ha : a.typeIds.Nodup) (hb : b.typeIds.Nodup) {c : TypeChange} :
    c ∈ (compare b a).changedTypes ↔ c.swap ∈ (compare a b).changedTypes := by
  rw [mem_changedTypes_iff ha, mem_changedTypes_iff hb]
  constructor
  · rintro ⟨u, hu, t, ht, hid, hchange⟩
    refine ⟨t, ht, u, hu, hid.symm, ?_⟩
    rw [changeTo?_swap hid, hchange]
    rfl
  · rintro ⟨t, ht, u, hu, hid, hchange⟩
    refine ⟨u, hu, t, ht, hid.symm, ?_⟩
    rw [changeTo?_swap hid, hchange]
    rfl

theorem mem_typeIds_of_mem_changedTypes {c : TypeChange}
    (hc : c ∈ (compare a b).changedTypes) : c.id ∈ a.typeIds ∧ c.id ∈ b.typeIds := by
  obtain ⟨t, ht, u, hfind, hchange⟩ := mem_changedTypes.mp hc
  obtain ⟨hu, hid⟩ := Document.findType_eq_some hfind
  rw [(changeTo?_eq_some hchange).1]
  exact ⟨List.mem_map_of_mem ht, hid ▸ List.mem_map_of_mem hu⟩

/-- A change has the identifier of the old type that it is about. -/
theorem nodup_changedTypes_ids (ha : a.typeIds.Nodup) :
    ((compare a b).changedTypes.map (·.id)).Nodup := by
  have hids : ∀ (t : TypeRecord) (c : TypeChange),
      (b.findType t.id).bind t.changeTo? = some c → c.id = t.id := by
    intro t c hc
    obtain ⟨u, -, hchange⟩ := Option.bind_eq_some_iff.mp hc
    exact (changeTo?_eq_some hchange).1
  rw [List.Nodup, List.pairwise_map, compare, List.pairwise_filterMap]
  refine (List.pairwise_map.mp ha).imp fun {t u} hne c hc e he => ?_
  rwa [hids t c hc, hids u e he]

theorem nodup_changedTypes (ha : a.typeIds.Nodup) : (compare a b).changedTypes.Nodup :=
  (nodup_changedTypes_ids ha).of_map _

end Diff

/-- **A comparison the other way.** The lists of types and those of each changed
type trade places. Each changed type is one of both documents, is listed once and
has lost or gained a member. -/
theorem compare_swap {a b : Document} (ha : a.typeIds.Nodup) (hb : b.typeIds.Nodup) :
    (Diff.compare b a).removedTypes = (Diff.compare a b).addedTypes
      ∧ (Diff.compare b a).addedTypes = (Diff.compare a b).removedTypes
      ∧ (Diff.compare b a).changedTypes.Perm ((Diff.compare a b).changedTypes.map .swap)
      ∧ (∀ c ∈ (Diff.compare a b).changedTypes,
          c.id ∈ a.typeIds ∧ c.id ∈ b.typeIds ∧ (c.removed ≠ [] ∨ c.added ≠ []))
      ∧ ((Diff.compare a b).changedTypes.map (·.id)).Nodup := by
  refine ⟨rfl, rfl, ?_, fun c hc => ?_, Diff.nodup_changedTypes_ids ha⟩
  · have hinjective : Function.Injective TypeChange.swap :=
      Function.LeftInverse.injective TypeChange.swap_swap
    refine (List.perm_ext_iff_of_nodup (Diff.nodup_changedTypes hb)
      ((Diff.nodup_changedTypes ha).map hinjective)).mpr fun c => ?_
    rw [Diff.mem_changedTypes_swap ha hb]
    exact (List.mem_map_of_injective hinjective (a := c.swap)).symm
  · obtain ⟨hold, hnew⟩ := Diff.mem_typeIds_of_mem_changedTypes hc
    obtain ⟨t, -, u, -, hchange⟩ := Diff.mem_changedTypes.mp hc
    exact ⟨hold, hnew, changeTo?_ne_nil hchange⟩

/-! ## A room that is refurnished -/

def wardrobe (shelves : List String) : TypeRecord := { cabinet shelves with name := "Wardrobe" }

def oldRoom : Document := ⟨"Room", [cabinet ["left", "left"], wardrobe ["top"]]⟩

def newRoom : Document := ⟨"Room", [wardrobe ["top", "base"], cabinet ["right"]]⟩

/-- The changes are found in another order, and a drawer that was there twice is
added twice on the way back. -/
theorem room_refurnished :
    oldRoom.typeIds.Nodup ∧ newRoom.typeIds.Nodup
      ∧ (Diff.compare newRoom oldRoom).changedTypes.Perm
          ((Diff.compare oldRoom newRoom).changedTypes.map .swap)
      ∧ (Diff.compare oldRoom newRoom).changedTypes.map
          (fun c => (c.removed.length, c.added.length)) = [(2, 1), (0, 1)]
      ∧ (Diff.compare newRoom oldRoom).changedTypes.map
          (fun c => (c.removed.length, c.added.length)) = [(1, 0), (1, 2)] := by
  have hold : oldRoom.typeIds.Nodup := by decide
  have hnew : newRoom.typeIds.Nodup := by decide
  exact ⟨hold, hnew, (compare_swap hold hnew).2.2.1, by decide, by decide⟩

end ApiBaseline
