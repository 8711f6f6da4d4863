import ApiBaseline.Json.Datum
import ApiBaseline.Schema.Writer

/-!
# Values that are settled already

A JSON value says what it is, so little changes when it is settled before it is
read. Only an object of one field may come to name a value, when that field holds an
object without fields. The values of which manifests are made stay as they are.
-/

namespace ApiBaseline.Schema

/-- The value stays as it is when it is settled. -/
def Settled (v : Json) : Prop :=
  ∀ levels, v.depth ≤ levels → (v.toDatum levels).settle? = some (v.toDatum levels)

namespace Settled

theorem text (s : String) : Settled (.text s) := fun _ _ => rfl

theorem boolean (b : Bool) : Settled (.boolean b) := fun _ _ => rfl

theorem array {α : Type} {write : α → Json} {as : List α} (h : ∀ a ∈ as, Settled (write a)) :
    Settled (.array (as.map write)) := by
  have hitems : ∀ (levels : Nat) (vs : List Json), (∀ v ∈ vs, Settled v) →
      Json.itemsDepth vs ≤ levels →
      Datum.settleAll? (Json.itemData levels vs) = some (Json.itemData levels vs) := by
    intro levels vs
    induction vs with
    | nil => exact fun _ _ => rfl
    | cons v vs ih =>
        intro hvs hdepth
        obtain ⟨hv, hvs⟩ := List.forall_mem_cons.mp hvs
        rw [Json.itemsDepth, Nat.max_le] at hdepth
        rw [Json.itemData, Datum.settleAll?, hv levels hdepth.1, ih hvs hdepth.2]
        rfl
  intro levels hdepth
  rw [Json.depth] at hdepth
  rw [Json.toDatum, if_neg (by omega), Datum.settle?,
    hitems (levels - 1) _ (List.forall_mem_map.mpr h) (by omega)]
  rfl

theorem fields {fs : List (String × Json)} (h : ∀ f ∈ fs, Settled f.2) {levels : Nat}
    (hdepth : Json.fieldsDepth fs ≤ levels) :
    Datum.settleFields? (Json.fieldData levels fs) = some (Json.fieldData levels fs) := by
  induction fs with
  | nil => rfl
  | cons f fs ih =>
      obtain ⟨hf, hfs⟩ := List.forall_mem_cons.mp h
      rw [Json.fieldsDepth, Nat.max_le] at hdepth
      rw [Json.fieldData, Datum.settleFields?, hf levels hdepth.1, ih hfs hdepth.2]
      rfl

/-- An object of one field may name a value, but not one of several. -/
theorem object {fs : List (String × Json)} (hlength : 2 ≤ fs.length)
    (h : ∀ f ∈ fs, Settled f.2) : Settled (.object fs) := by
  intro levels hdepth
  rw [Json.depth] at hdepth
  -- With two fields the object names nothing, settled or not.
  have hchoice : Datum.settledChoice? (Json.fieldData (levels - 1) fs) = Json.choice? fs := by
    match fs, hlength with
    | f :: g :: fs, _ => simp [Json.fieldData, Datum.settledChoice?, Json.choice?]
  rw [Json.toDatum, if_neg (by omega), Datum.settle?, fields h (by omega), Option.map_some,
    hchoice]

theorem optionalField {name : String} {o : Option Json} (h : ∀ v ∈ o, Settled v) :
    ∀ f ∈ Json.optionalField name o, Settled f.2 := by
  cases o with
  | none => exact nofun
  | some v => exact List.forall_mem_singleton.mpr (h v rfl)

theorem listField {α : Type} {name : String} {write : α → Json} {as : List α}
    (h : ∀ a ∈ as, Settled (write a)) :
    ∀ f ∈ Json.listField name (as.map write), Settled f.2 := by
  cases as with
  | nil => exact nofun
  | cons a as => exact List.forall_mem_singleton.mpr (array h)

end Settled

end ApiBaseline.Schema
