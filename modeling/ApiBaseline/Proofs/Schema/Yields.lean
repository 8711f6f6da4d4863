import ApiBaseline.Proofs.Generate
import ApiBaseline.Schema.Text

/-!
# What readers yield

A reader yields a property when every value that it makes of a datum has it,
whatever the datum is (`Reader.Yields`). The laws follow the combinators, so that
what the readers of scalars establish holds in every part of a record.
-/

namespace ApiBaseline.Schema

variable {α β : Type}

/-- Whatever the reader reads has the property. -/
def Reader.Yields (r : Reader α) (P : α → Prop) : Prop := ∀ v a, r v = .ok a → P a

/-- Whatever the part is read as has the property. -/
def FieldReader.Yields (p : FieldReader α) (P : α → Prop) : Prop :=
  ∀ fs a, p.read fs = .ok a → P a

/-! ## Values that may be absent, lists -/

namespace Reader.Yields

variable {r : Reader α} {P : α → Prop}

theorem optional (hr : r.Yields P) : (Reader.optional r).Yields fun o => ∀ a ∈ o, P a := by
  have hpresent : ∀ {v o}, (r v).map some = .ok o → ∀ a ∈ o, P a := by
    intro v o h
    obtain ⟨a, ha, rfl⟩ := map_eq_ok h
    rintro b ⟨⟩
    exact hr v a ha
  intro v o h
  cases v with
  | scalar s =>
      simp only [Reader.optional] at h
      split at h
      · obtain rfl := Except.ok.inj h
        exact nofun
      · exact hpresent h
      · cases h
  | list vs => exact hpresent h
  | record choice? fs => exact hpresent h
  | marked v => exact hpresent h
  | unreadable => exact hpresent h

theorem each (hr : r.Yields P) {vs : List Datum} {as : List α}
    (h : Reader.each r vs = .ok as) : ∀ a ∈ as, P a := by
  induction vs generalizing as with
  | nil =>
      obtain rfl := Except.ok.inj h
      exact nofun
  | cons v vs ih =>
      obtain ⟨a, ha, h⟩ := bind_eq_ok h
      obtain ⟨rest, hrest, h⟩ := bind_eq_ok h
      obtain rfl := Except.ok.inj h
      exact List.forall_mem_cons.mpr ⟨hr v a ha, ih hrest⟩

theorem list (hr : r.Yields P) : (Reader.list r).Yields fun as => ∀ a ∈ as, P a := by
  intro v as h
  change Reader.items r v = .ok as at h
  fun_induction Reader.items r v with
  | case1 vs => exact each hr h
  | case2 v ih => exact ih h
  | case3 s hempty =>
      obtain rfl := Except.ok.inj h
      exact nofun
  | case4 s hempty => cases h
  | case5 v hlist hmarked hscalar => cases h

end Reader.Yields

/-! ## Fields -/

namespace FieldReader.Yields

variable {name : String} {r : Reader α} {P Q : α → Prop}

theorem of_find? (hr : r.Yields P) {fs : Fields} {o : Option α}
    (h : find? name r fs = .ok o) : ∀ a ∈ o, P a := by
  unfold find? at h
  split at h
  · obtain rfl := Except.ok.inj h
    exact nofun
  · split at h
    · cases h
    · next hv _ =>
      obtain rfl := Except.ok.inj h
      rintro a ⟨⟩
      exact hr _ _ hv
    · cases h

theorem required (hr : r.Yields P) : (FieldReader.required name r).Yields P := by
  intro fs a h
  simp only [FieldReader.required] at h
  split at h
  · next hfind =>
    obtain rfl := Except.ok.inj h
    exact of_find? hr hfind _ rfl
  · cases h
  · cases h

theorem withDefault {standard : α} (hr : r.Yields P) (hstandard : P standard) :
    (FieldReader.withDefault name r standard).Yields P := by
  intro fs a h
  obtain ⟨o, ho, rfl⟩ := map_eq_ok h
  cases o with
  | none => exact hstandard
  | some a => exact of_find? hr ho a rfl

theorem optional (hr : r.Yields P) :
    (FieldReader.optional name r).Yields fun o => ∀ a ∈ o, P a :=
  withDefault (Reader.Yields.optional hr) fun a h => absurd h (Option.not_mem_none a)

theorem list (hr : r.Yields P) :
    (FieldReader.list name r).Yields fun as => ∀ a ∈ as, P a :=
  withDefault (Reader.Yields.list hr) fun _ h => absurd h List.not_mem_nil

theorem combine_eq_ok {f : Except PlacedFault (α → β)} {x : Except PlacedFault α} {b : β}
    (h : combine f x = .ok b) : ∃ g a, f = .ok g ∧ x = .ok a ∧ b = g a := by
  unfold combine at h
  split at h
  · next g a => exact ⟨g, a, rfl, rfl, (Except.ok.inj h).symm⟩
  · cases h
  · cases h
  · cases h

theorem seq {R : β → Prop} {f : FieldReader (α → β)} {x : FieldReader α}
    (hf : f.Yields fun g => ∀ a, Q a → R (g a)) (hx : x.Yields Q) : (f <*> x).Yields R := by
  intro fs b h
  obtain ⟨g, a, hg, ha, rfl⟩ := combine_eq_ok h
  exact hf fs g hg a (hx fs a ha)

/-- A part of which nothing has to be known. -/
theorem skip {R : β → Prop} {f : FieldReader (α → β)} {x : FieldReader α}
    (hf : f.Yields fun g => ∀ a, R (g a)) : (f <*> x).Yields R :=
  seq (Q := fun _ => True) (fun fs g hg a _ => hf fs g hg a) fun _ _ _ => trivial

theorem map {g : α → β} {R : β → Prop} {x : FieldReader α} (hx : x.Yields Q)
    (hg : ∀ a, Q a → R (g a)) : (g <$> x).Yields R :=
  seq (f := pure g) (fun _ _ h => Except.ok.inj h ▸ hg) hx

/-- A first part of which nothing has to be known. -/
theorem first {g : α → β} {R : β → Prop} {x : FieldReader α} (hg : ∀ a, R (g a)) :
    (g <$> x).Yields R :=
  map (Q := fun _ => True) (fun _ _ _ => trivial) fun a _ => hg a

end FieldReader.Yields

/-! ## Records -/

theorem Reader.Yields.record {p : FieldReader α} {P : α → Prop} (hp : p.Yields P) :
    (Reader.record p).Yields P := by
  have hfields : ∀ {fs check a}, Reader.allFields p fs check = .ok a → P a := by
    intro fs check a h
    simp only [Reader.allFields] at h
    split at h
    · next hall =>
      obtain rfl := Except.ok.inj h
      obtain ⟨g, u, hg, -, rfl⟩ := FieldReader.Yields.combine_eq_ok hall
      obtain ⟨b, hb, rfl⟩ := map_eq_ok hg
      exact hp _ b hb
    · cases h
  intro v a h
  change Reader.fields p v = .ok a at h
  fun_induction Reader.fields p v with
  | case1 choice? fs => exact hfields h
  | case2 items => exact hfields h
  | case3 v ih => exact ih h
  | case4 s hempty => exact hfields h
  | case5 s hempty => cases h
  | case6 => cases h

/-! ## Texts -/

theorem Reader.Yields.readText {r : Reader α} {P : α → Prop} (hr : r.Yields P)
    {format : TextFormat} {s : String} {a : α} (h : Schema.readText format r s = .ok a) : P a := by
  unfold Schema.readText at h
  dsimp only at h
  split at h
  · next hread =>
    split at h
    · obtain rfl := Except.ok.inj h
      exact hr _ _ hread
    · cases h
  · cases h

end ApiBaseline.Schema
