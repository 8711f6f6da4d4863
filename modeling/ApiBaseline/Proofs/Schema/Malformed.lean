import ApiBaseline.Proofs.Schema.Yields
import ApiBaseline.Schema.Settings

/-!
# Readers without references

A fault says either that a datum does not have the shape that is asked for, or that
a type reference in it cannot be read. A reader that asks for no reference reports
faults of the first sort only (`Reader.ReferenceFree`). Settings are read so
(`readSettings_referenceFree`).
-/

namespace ApiBaseline.Schema

variable {α β : Type}

/-- Whatever the reader refuses is malformed. -/
def Reader.ReferenceFree (r : Reader α) : Prop :=
  ∀ v fault, r v = .error fault → fault = .malformed

/-- Whatever the part refuses is malformed. -/
def FieldReader.ReferenceFree (p : FieldReader α) : Prop :=
  ∀ fs i fault, p.read fs = .error (i, fault) → fault = .malformed

/-! ## Scalars and lists -/

namespace Reader.ReferenceFree

theorem of_demand {o : Option α} {fault : Fault} (h : demand o = .error fault) :
    fault = .malformed := by
  cases o with
  | none => exact (Except.error.inj h).symm
  | some a => cases h

theorem text : Reader.text.ReferenceFree := by
  intro v fault h
  cases v with
  | scalar s => exact of_demand h
  | list | record | marked | unreadable => exact (Except.error.inj h).symm

theorem flag : Reader.flag.ReferenceFree := by
  intro v fault h
  cases v with
  | scalar s => exact of_demand h
  | list | record | marked | unreadable => exact (Except.error.inj h).symm

variable {r : Reader α}

theorem each (hr : r.ReferenceFree) {vs : List Datum} {fault : Fault}
    (h : Reader.each r vs = .error fault) : fault = .malformed := by
  induction vs with
  | nil => cases h
  | cons v vs ih =>
      obtain hv | ⟨a, -, h⟩ := bind_eq_error h
      · exact hr v _ hv
      · obtain hvs | ⟨as, -, h⟩ := bind_eq_error h
        · exact ih hvs
        · cases h

theorem list (hr : r.ReferenceFree) : (Reader.list r).ReferenceFree := by
  intro v fault h
  change Reader.items r v = .error fault at h
  fun_induction Reader.items r v with
  | case1 vs => exact each hr h
  | case2 v ih => exact ih h
  | case3 s hempty => cases h
  | case4 s hempty => exact (Except.error.inj h).symm
  | case5 v hlist hmarked hscalar => exact (Except.error.inj h).symm

end Reader.ReferenceFree

/-! ## Fields -/

namespace FieldReader.ReferenceFree

theorem of_find? {r : Reader α} (hr : r.ReferenceFree) {name : String} {fs : Fields} {i : Nat}
    {fault : Fault} (h : find? name r fs = .error (i, fault)) : fault = .malformed := by
  unfold find? at h
  split at h
  · cases h
  · next v _ _ =>
    split at h
    · next hv _ =>
      obtain ⟨rfl, rfl⟩ := Prod.mk.inj (Except.error.inj h)
      exact hr _ _ hv
    · cases h
    · exact (Prod.mk.inj (Except.error.inj h)).2.symm

theorem withDefault {r : Reader α} (hr : r.ReferenceFree) (name : String) (standard : α) :
    (FieldReader.withDefault name r standard).ReferenceFree :=
  fun _ _ _ h => of_find? hr (map_eq_error h)

theorem flag (name : String) : (FieldReader.flag name).ReferenceFree :=
  withDefault Reader.ReferenceFree.flag name false

theorem list {item : Reader α} (hitem : item.ReferenceFree) (name : String) :
    (FieldReader.list name item).ReferenceFree :=
  withDefault (Reader.ReferenceFree.list hitem) name []

theorem of_combine {f : Except PlacedFault (α → β)} {x : Except PlacedFault α}
    (hf : ∀ i fault, f = .error (i, fault) → fault = .malformed)
    (hx : ∀ i fault, x = .error (i, fault) → fault = .malformed) {i : Nat} {fault : Fault}
    (h : combine f x = .error (i, fault)) : fault = .malformed := by
  unfold combine at h
  split at h
  · cases h
  · obtain rfl := Except.error.inj h
    exact hf _ _ rfl
  · obtain rfl := Except.error.inj h
    exact hx _ _ rfl
  · have h := Except.error.inj h
    split at h
    · obtain rfl := h
      exact hx _ _ rfl
    · obtain rfl := h
      exact hf _ _ rfl

theorem seq {f : FieldReader (α → β)} {x : FieldReader α} (hf : f.ReferenceFree)
    (hx : x.ReferenceFree) : (f <*> x).ReferenceFree :=
  fun fs _ _ h => of_combine (hf fs) (hx fs) h

theorem map {x : FieldReader α} (hx : x.ReferenceFree) (g : α → β) :
    (g <$> x).ReferenceFree :=
  seq (f := pure g) nofun hx

end FieldReader.ReferenceFree

/-! ## Records and texts -/

theorem Reader.ReferenceFree.record {p : FieldReader α} (hp : p.ReferenceFree) :
    (Reader.record p).ReferenceFree := by
  have hfields : ∀ {fs check fault}, (∀ i e, check = .error (i, e) → e = Fault.malformed) →
      Reader.allFields p fs check = .error fault → fault = .malformed := by
    intro fs check fault hcheck h
    simp only [Reader.allFields] at h
    split at h
    · cases h
    · next i e hall =>
      obtain rfl := Except.error.inj h
      exact FieldReader.ReferenceFree.of_combine (fun j e he => hp fs j e (map_eq_error he))
        hcheck hall
  intro v fault h
  change Reader.fields p v = .error fault at h
  fun_induction Reader.fields p v with
  | case1 choice? fs =>
      refine hfields ?_ h
      intro i e he
      unfold Reader.checkKeys at he
      split at he
      · exact (Prod.mk.inj (Except.error.inj he)).2.symm
      · cases he
  | case2 items =>
      refine hfields ?_ h
      intro i e he
      unfold Reader.checkLength at he
      split at he
      · cases he
      · exact (Prod.mk.inj (Except.error.inj he)).2.symm
  | case3 v ih => exact ih h
  | case4 s hempty =>
      refine hfields ?_ h
      intro i e he
      cases he
  | case5 s hempty => exact (Except.error.inj h).symm
  | case6 => exact (Except.error.inj h).symm

theorem Reader.ReferenceFree.readText {r : Reader α} (hr : r.ReferenceFree)
    {format : TextFormat} {s : String} {fault : Fault}
    (h : Schema.readText format r s = .error fault) : fault = .malformed := by
  unfold Schema.readText at h
  dsimp only at h
  split at h
  · split at h
    · cases h
    · exact (Except.error.inj h).symm
  · next hread =>
    obtain rfl := Except.error.inj h
    exact hr _ _ hread

theorem readSettings_referenceFree : readSettings.ReferenceFree :=
  have hnames := FieldReader.ReferenceFree.list Reader.ReferenceFree.text
  .record <|
    .seq (.seq (.seq (.map (.flag "public_only") Settings.mk) (hnames "exclude_namespaces"))
      (hnames "exclude_types")) (.flag "include_compiler_generated")

end ApiBaseline.Schema
