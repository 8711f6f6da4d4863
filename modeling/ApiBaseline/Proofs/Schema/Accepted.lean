import ApiBaseline.Proofs.Metadata.References
import ApiBaseline.Proofs.Schema.Yields
import ApiBaseline.Proofs.TypeRef.RoundTrip
import ApiBaseline.Schema.Manifest

/-!
# References that have been read

A reference is read from a text, and only well-formed references have one. So every
reference of a manifest that has been read is well-formed, wherever in it it stands
(`readManifest_yields`).
-/

namespace ApiBaseline.Schema

open Reader (reference)
open Reader.Yields (record)
open FieldReader.Yields (first required withDefault optional list)

theorem reference_yields : reference.Yields fun t => t.isWellFormed = true := by
  intro v t h
  obtain ⟨s, -, h⟩ := bind_eq_ok h
  split at h
  · next hparse =>
    obtain rfl := Except.ok.inj h
    exact (TypeRef.parse_sound hparse).1
  · cases h

theorem readGenericParam_yields :
    readGenericParam.Yields fun p => ∀ t ∈ p.types, t.isWellFormed = true := by
  refine record <| (first ?_)
    |>.seq (optional reference_yields)
    |>.seq (list reference_yields)
    |>.skip |>.skip |>.skip
  intro name base hbase interfaces hinterfaces _ _ _
  exact GenericParam.forall_types.mpr ⟨hbase, hinterfaces⟩

theorem readParameter_yields : readParameter.Yields fun p => p.type.isWellFormed = true :=
  record <| (first fun _ _ ht _ _ _ _ _ _ => ht)
    |>.seq (required reference_yields)
    |>.skip |>.skip |>.skip |>.skip |>.skip |>.skip

theorem readSlotRow_yields : readSlotRow.Yields fun r => r.interface.isWellFormed = true :=
  record <| (FieldReader.Yields.map (required reference_yields) fun _ ht _ => ht)
    |>.skip

theorem readMethod_yields :
    readMethod.Yields fun x => ∀ t ∈ x.types, t.isWellFormed = true := by
  refine record <| (first ?_)
    |>.skip |>.skip |>.skip |>.skip |>.skip |>.skip |>.skip
    |>.seq (withDefault reference_yields ?_)
    |>.seq (list readParameter_yields)
    |>.seq (list readGenericParam_yields)
    |>.skip
    |>.seq (list readSlotRow_yields)
  · intro name _ _ _ _ _ _ _ returnType hreturn params hparams generics hgenerics _ rows hrows
    exact Method.forall_types.mpr ⟨hreturn, hparams, hgenerics, hrows⟩
  · decide

theorem readField_yields : readField.Yields fun f => f.type.isWellFormed = true :=
  record <| (first fun _ _ _ ht _ _ _ => ht)
    |>.skip
    |>.seq (required reference_yields)
    |>.skip |>.skip |>.skip

theorem readUnsupported_eq_ok {v : Datum} {x : Member} (h : readUnsupported v = .ok x) :
    x = .unsupported := by
  unfold readUnsupported at h
  split at h
  · cases h
  · exact (Except.ok.inj h).symm

theorem readMemberOf_yields {kind : String} {fields : Datum} {x : Member}
    (h : readMemberOf kind fields = .ok x) : ∀ t ∈ x.types, t.isWellFormed = true := by
  unfold readMemberOf at h
  split at h
  · obtain ⟨y, hy, rfl⟩ := map_eq_ok h
    exact readMethod_yields _ y hy
  · obtain ⟨y, hy, rfl⟩ := map_eq_ok h
    exact readMethod_yields _ y hy
  · obtain ⟨f, hf, rfl⟩ := map_eq_ok h
    exact List.forall_mem_singleton.mpr (readField_yields _ f hf)
  · obtain ⟨name, -, rfl⟩ := map_eq_ok h
    exact nofun
  · obtain ⟨name, -, rfl⟩ := map_eq_ok h
    exact nofun
  · obtain ⟨name, -, rfl⟩ := map_eq_ok h
    exact nofun
  · obtain rfl := readUnsupported_eq_ok h
    exact nofun

theorem readMember_yields :
    readMember.Yields fun x => ∀ t ∈ x.types, t.isWellFormed = true := by
  intro v x h
  simp only [readMember] at h
  split at h
  · obtain ⟨taken, -, h⟩ := bind_eq_ok h
    split at h
    · exact readMemberOf_yields h
    · cases h
  · obtain ⟨kind, -, h⟩ := bind_eq_ok h
    obtain ⟨items, -, h⟩ := bind_eq_ok h
    exact readMemberOf_yields h
  · cases h

theorem readDefinition_yields :
    readDefinition.Yields fun d => ∀ t ∈ d.types, t.isWellFormed = true := by
  refine record <| (first ?_)
    |>.skip |>.skip |>.skip |>.skip |>.skip
    |>.seq (optional reference_yields)
    |>.seq (list reference_yields)
    |>.seq (list readGenericParam_yields)
    |>.seq (list readMember_yields)
  intro name _ _ _ _ _ base hbase interfaces hinterfaces generics hgenerics members hmembers
  exact Definition.forall_types.mpr ⟨hbase, hinterfaces, hgenerics, hmembers⟩

theorem readManifest_yields :
    readManifest.Yields fun M => ∀ d ∈ M.definitions, ∀ t ∈ d.types, t.isWellFormed = true := by
  refine record <| (first ?_)
    |>.seq (list readDefinition_yields)
    |>.seq (list readDefinition_yields)
    |>.skip
  intro identity types htypes references hreferences valueTypes
  exact List.forall_mem_append.mpr ⟨htypes, hreferences⟩

end ApiBaseline.Schema
