import ApiBaseline.Proofs.Json.Line
import ApiBaseline.Proofs.Json.Numeral
import ApiBaseline.Proofs.Schema.Accepted
import ApiBaseline.Proofs.Schema.Document
import ApiBaseline.Proofs.Schema.Settled

/-!
# Manifests have a normal form

A manifest with well-formed references and without doubles is read from its own
written form, by the laws of its fields (`readManifest_reads`). A member says first
of what kind it is; the fields behind that stay as they are when they are settled.
The written form is legible and not deep, and references that have been read are
well-formed. So a manifest that has been read is read again from its normal form
(`readText_normalForm`).
-/

namespace ApiBaseline

/-! ## Constants of a manifest -/

def Method.constants (x : Method) : List Constant := x.params.filterMap (·.default)

def Member.constants : Member → List Constant
  | .constructor x | .method x => x.constants
  | .field _ | .property _ | .event _ | .nestedType _ | .unsupported => []

def Definition.constants (d : Definition) : List Constant := d.members.flatMap (·.constants)

/-- The defaults of all parameters. -/
def Manifest.constants (M : Manifest) : List Constant := M.definitions.flatMap (·.constants)

/-- The normal form. -/
def Manifest.toJson (M : Manifest) : Json := Schema.writeManifest Constant.toJson M

theorem Method.forall_constants {x : Method} {P : Constant → Prop} :
    (∀ c ∈ x.constants, P c) ↔ ∀ p ∈ x.params, ∀ c ∈ p.default, P c := by
  simp only [constants, List.mem_filterMap, forall_exists_index, and_imp, Option.mem_def]
  exact ⟨fun h p hp c hc => h c p hp hc, fun h c p hp hc => h p hp c hc⟩

namespace Schema

open Reader (reference)

/-! ## Scalars -/

instance : LawfulNamed TypeAccess := ⟨fun a => by cases a <;> decide⟩

instance : LawfulNamed MemberAccess := ⟨fun a => by cases a <;> decide⟩

theorem reference_reads {t : TypeRef} (h : t.isWellFormed = true) :
    reference.Reads (.ofReference t) t := by
  intro levels _
  have hparse : TypeRef.parse t.display = .ok t :=
    TypeRef.parse_complete h (TypeRef.lexemes_display h) (TypeRef.scan_display h)
  have htext : Reader.text (Json.toDatum levels (.ofReference t)) = .ok t.display := rfl
  simp only [reference, htext, bind, Except.bind, hparse]

theorem optional_reference_reads {t : TypeRef} (h : t.isWellFormed = true) :
    (Reader.optional reference).Reads (.ofReference t) (some t) := fun levels hlevels =>
  congrArg (Except.map some) (reference_reads h levels hlevels)

/-- A constant that is no double is the datum of its written form. -/
theorem toDatum_toJson {c : Constant} (h : c.kind ≠ .real) (levels : Nat) :
    c.toJson.toDatum levels = .ofPlain (.constant c) := by
  cases c with
  | boolean b => rfl
  | signed n =>
      have hread := Json.Numeral.constant?_ofInt (Constant.ofInt?_signed n)
      simp only [Constant.toJson, Json.ofInt, Json.toDatum, hread]
  | unsigned n =>
      have hread := Json.Numeral.constant?_ofInt (Constant.ofInt?_unsigned n)
      simp only [Constant.toJson, Json.ofInt, Json.toDatum, hread]
  | real x => exact absurd rfl h
  | text s => rfl

theorem optional_constant_reads {c : Constant} (h : c.kind ≠ .real) :
    (Reader.optional Reader.constant).Reads c.toJson (some c) := by
  intro levels _
  rw [toDatum_toJson h]
  cases c <;> rfl

/-! ## Parts -/

open FieldReader.Reads (required withDefault flag seq map optional list)

theorem readGenericParam_reads {p : GenericParam} (ht : ∀ t ∈ p.types, t.isWellFormed = true) :
    readGenericParam.Reads (writeGenericParam p) p := by
  obtain ⟨hbase, hinterfaces⟩ := GenericParam.forall_types.mp ht
  rw [writeGenericParam, listField_eq]
  refine record_reads ?_ ?_
  · have hnames : (["name"] ++ ["base_type"] ++ ["interfaces"]
        ++ ["default_constructor", "reference_type", "value_type"]).Nodup := by decide
    refine hnames.sublist ?_
    simp only [List.map_append]
    exact (((List.Sublist.refl _).append (names_optionalField _ _)).append
      (names_optionalField _ _)).append (List.Sublist.refl _)
  · exact (map _ (required rfl (text_reads p.name)))
      |>.seq (optional (by simp [List.lookup_cons, List.lookup_append])
        fun t h => optional_reference_reads (hbase t h))
      |>.seq (list (by simp [List.lookup_cons, List.lookup_append])
        fun t h => reference_reads (hinterfaces t h))
      |>.seq (flag (by simp [List.lookup_cons, List.lookup_append]))
      |>.seq (flag (by simp [List.lookup_cons, List.lookup_append]))
      |>.seq (flag (by simp [List.lookup_cons, List.lookup_append]))

theorem readParameter_reads {p : Parameter} (ht : p.type.isWellFormed = true)
    (hc : ∀ c ∈ p.default, c.kind ≠ .real) :
    readParameter.Reads (writeParameter Constant.toJson p) p := by
  rw [writeParameter, listField_eq]
  refine record_reads ?_ ?_
  · have hnames : (["name", "type", "is_in", "is_out", "is_optional", "has_default"]
        ++ ["default"] ++ ["attributes"]).Nodup := by decide
    refine hnames.sublist ?_
    simp only [List.map_append]
    exact ((List.Sublist.refl _).append (names_optionalField _ _)).append
      (names_optionalField _ _)
  · exact (map _ (required rfl (text_reads p.name)))
      |>.seq (required rfl (reference_reads ht))
      |>.seq (flag rfl)
      |>.seq (flag rfl)
      |>.seq (flag rfl)
      |>.seq (flag rfl)
      |>.seq (optional (by simp [List.lookup_cons, List.lookup_append])
        fun c h => optional_constant_reads (hc c h))
      |>.seq (list (by simp [List.lookup_cons, List.lookup_append])
        fun s _ => text_reads s)

theorem readSlotRow_reads {r : SlotRow} (ht : r.interface.isWellFormed = true) :
    readSlotRow.Reads (writeSlotRow r) r :=
  record_reads (by simp) ((map _ (required rfl (reference_reads ht)))
    |>.seq (required rfl (text_reads r.method)))

/-- The names of the fields of a method. -/
def methodNames : List String :=
  ["name", "access", "is_static", "is_final", "is_virtual", "is_new_slot", "is_abstract",
    "hide_by_sig", "return_type"] ++ ["params"] ++ ["generic_params"] ++ ["attributes"]
    ++ ["overrides"]

theorem names_writeMethodFields (x : Method) :
    ((writeMethodFields Constant.toJson x).map (·.1)).Sublist methodNames := by
  simp only [writeMethodFields, listField_eq, List.map_append]
  exact ((((List.Sublist.refl _).append (names_optionalField _ _)).append
    (names_optionalField _ _)).append (names_optionalField _ _)).append (names_optionalField _ _)

theorem readMethod_reads {x : Method} (ht : ∀ t ∈ x.types, t.isWellFormed = true)
    (hc : ∀ c ∈ x.constants, c.kind ≠ .real) :
    readMethod.Reads (.object (writeMethodFields Constant.toJson x)) x := by
  obtain ⟨hreturn, hparams, hgenerics, hrows⟩ := Method.forall_types.mp ht
  have hdefaults := Method.forall_constants.mp hc
  refine record_reads ((by decide : methodNames.Nodup).sublist (names_writeMethodFields x)) ?_
  simp only [writeMethodFields, listField_eq]
  exact (map _ (required rfl (text_reads x.name)))
    |>.seq (withDefault _ rfl (choice_reads x.access))
    |>.seq (flag rfl)
    |>.seq (flag rfl)
    |>.seq (flag rfl)
    |>.seq (flag rfl)
    |>.seq (flag rfl)
    |>.seq (withDefault _ rfl (flag_reads x.hideBySig))
    |>.seq (withDefault _ rfl (reference_reads hreturn))
    |>.seq (list (by simp [List.lookup_cons, List.lookup_append])
      fun p hp => readParameter_reads (hparams p hp) (hdefaults p hp))
    |>.seq (list (by simp [List.lookup_cons, List.lookup_append])
      fun p hp => readGenericParam_reads (hgenerics p hp))
    |>.seq (list (by simp [List.lookup_cons, List.lookup_append]) fun s _ => text_reads s)
    |>.seq (list (by simp [List.lookup_cons, List.lookup_append])
      fun r hr => readSlotRow_reads (hrows r hr))

theorem readField_reads {f : Field} (ht : f.type.isWellFormed = true) :
    readField.Reads (.object (writeFieldFields f)) f :=
  record_reads (by simp [writeFieldFields]) ((map _ (required rfl (text_reads f.name)))
    |>.seq (withDefault _ rfl (choice_reads f.access))
    |>.seq (required rfl (reference_reads ht))
    |>.seq (flag rfl)
    |>.seq (flag rfl)
    |>.seq (flag rfl))

theorem readNameOnly_reads (name : String) :
    readNameOnly.Reads (.object [("name", .text name)]) name :=
  record_reads (by simp) (required rfl (text_reads name))

/-! ## Members -/

theorem Settled.constant {c : Constant} (h : c.kind ≠ .real) : Settled c.toJson := by
  intro levels _
  rw [toDatum_toJson h]
  cases c <;> rfl

theorem writeGenericParam_settled (p : GenericParam) : Settled (writeGenericParam p) := by
  refine .object (by simp; omega) ?_
  simp only [List.forall_mem_append, List.forall_mem_cons]
  refine ⟨⟨⟨⟨.text p.name, nofun⟩, .optionalField fun v hv => ?_⟩, .listField fun t _ => .text _⟩,
    .boolean _, .boolean _, .boolean _, nofun⟩
  obtain ⟨t, -, rfl⟩ := Option.map_eq_some_iff.mp hv
  exact .text _

theorem writeParameter_settled {p : Parameter} (hc : ∀ c ∈ p.default, c.kind ≠ .real) :
    Settled (writeParameter Constant.toJson p) := by
  refine .object (by simp) ?_
  simp only [List.forall_mem_append, List.forall_mem_cons]
  refine ⟨⟨⟨.text p.name, .text _, .boolean _, .boolean _, .boolean _, .boolean _, nofun⟩,
    .optionalField fun v hv => ?_⟩, .listField fun s _ => .text s⟩
  obtain ⟨c, hdefault, rfl⟩ := Option.map_eq_some_iff.mp hv
  exact .constant (hc c hdefault)

theorem writeSlotRow_settled (r : SlotRow) : Settled (writeSlotRow r) := by
  refine .object (by simp) ?_
  simp only [List.forall_mem_cons]
  exact ⟨.text _, .text r.method, nofun⟩

theorem writeMethodFields_settled {x : Method} (hc : ∀ c ∈ x.constants, c.kind ≠ .real) :
    ∀ f ∈ writeMethodFields Constant.toJson x, Settled f.2 := by
  have hdefaults := Method.forall_constants.mp hc
  simp only [writeMethodFields, List.forall_mem_append, List.forall_mem_cons]
  exact ⟨⟨⟨⟨⟨.text x.name, .text _, .boolean _, .boolean _, .boolean _, .boolean _, .boolean _,
    .boolean _, .text _, nofun⟩, .listField fun p hp => writeParameter_settled (hdefaults p hp)⟩,
    .listField fun p _ => writeGenericParam_settled p⟩, .listField fun s _ => .text s⟩,
    .listField fun r _ => writeSlotRow_settled r⟩

theorem writeFieldFields_settled (x : Field) : ∀ f ∈ writeFieldFields x, Settled f.2 := by
  simp only [writeFieldFields, List.forall_mem_cons]
  exact ⟨.text x.name, .text _, .text _, .boolean _, .boolean _, .boolean _, nofun⟩

theorem takeKind_fieldData {fs : List (String × Json)} (hname : "kind" ∉ fs.map (·.1))
    (h : ∀ f ∈ fs, Settled f.2) {levels : Nat} (hdepth : Json.fieldsDepth fs ≤ levels) :
    takeKind (Json.fieldData levels fs) = .ok ⟨[], Json.fieldData levels fs⟩ := by
  induction fs with
  | nil => rfl
  | cons f fs ih =>
      obtain ⟨hf, hfs⟩ := List.forall_mem_cons.mp h
      rw [Json.fieldsDepth, Nat.max_le] at hdepth
      rw [List.map_cons, List.mem_cons, not_or] at hname
      have hlabel : ¬ (Datum.ofPlain (.constant (.text f.1))).label? = some (.name "kind") :=
        fun heq => hname.1 (Label.name.inj (Option.some.inj heq)).symm
      have hkey : (Datum.ofPlain (.constant (.text f.1))).settle?
          = some (.ofPlain (.constant (.text f.1))) := rfl
      simp only [Json.fieldData, takeKind, hkey, Reader.demand, bind, Except.bind, if_neg hlabel,
        hf levels hdepth.1, ih hname.2 hfs hdepth.2]
      rfl

/-- A record is read from its fields alone, whatever else it may name. -/
theorem Reader.Reads.fields {α : Type} {parts : FieldReader α} {fs : List (String × Json)} {a : α}
    (h : (Reader.record parts).Reads (.object fs) a) {levels : Nat}
    (hdepth : Json.fieldsDepth fs ≤ levels) :
    Reader.record parts (.record none (Json.fieldData levels fs)) = .ok a := by
  have hread := h (levels + 1) (Nat.succ_le_succ hdepth)
  rwa [Json.toDatum, if_neg (Nat.succ_ne_zero levels)] at hread

theorem readMember_kinded {kind : String} {fs : List (String × Json)} {x : Member}
    (hname : "kind" ∉ fs.map (·.1)) (hsettled : ∀ f ∈ fs, Settled f.2)
    (h : ∀ levels, Json.fieldsDepth fs ≤ levels →
      readMemberOf kind (.record none (Json.fieldData levels fs)) = .ok x) :
    readMember.Reads (kinded kind fs) x := by
  intro levels hdepth
  have hfields : Json.fieldsDepth fs ≤ levels - 1 := by
    rw [kinded, Json.depth, Json.fieldsDepth] at hdepth
    omega
  -- The kind is taken out, and what is left are the fields behind it.
  have hkey : Datum.settle? (.ofPlain (.constant (.text "kind")))
      = some (.ofPlain (.constant (.text "kind"))) := rfl
  have hkind : Reader.text (Json.toDatum (levels - 1) (.text kind)) = .ok kind := rfl
  have htaken : takeKind (Json.fieldData (levels - 1) (("kind", .text kind) :: fs))
      = .ok ⟨[kind], Json.fieldData (levels - 1) fs⟩ := by
    simp only [Json.fieldData, takeKind, hkey, Reader.demand, bind, Except.bind, hkind,
      takeKind_fieldData hname hsettled hfields]
    rfl
  have hdatum : (kinded kind fs).toDatum levels
      = .record (Json.choice? (("kind", .text kind) :: fs))
        (Json.fieldData (levels - 1) (("kind", .text kind) :: fs)) := by
    rw [kinded, Json.depth] at hdepth
    rw [kinded, Json.toDatum, if_neg (by omega)]
  rw [hdatum]
  show (takeKind (Json.fieldData (levels - 1) (("kind", .text kind) :: fs)) >>= _) = _
  rw [htaken]
  exact h (levels - 1) hfields

/-- A kind that stands for a record is read as its members are. -/
theorem readMember_record {α : Type} {kind : String} {parts : FieldReader α} {g : α → Member}
    {fs : List (String × Json)} {a : α}
    (hkind : ∀ d, readMemberOf kind d = (Reader.record parts d).map g)
    (hname : "kind" ∉ fs.map (·.1)) (hsettled : ∀ f ∈ fs, Settled f.2)
    (h : (Reader.record parts).Reads (.object fs) a) :
    readMember.Reads (kinded kind fs) (g a) :=
  readMember_kinded hname hsettled fun levels hdepth => by
    rw [hkind, h.fields hdepth]
    rfl

theorem readMember_reads {x : Member} (ht : ∀ t ∈ x.types, t.isWellFormed = true)
    (hc : ∀ c ∈ x.constants, c.kind ≠ .real) :
    readMember.Reads (writeMember Constant.toJson x) x := by
  have hmethod : ∀ x : Method, "kind" ∉ (writeMethodFields Constant.toJson x).map (·.1) :=
    fun x h => absurd ((names_writeMethodFields x).subset h) (by decide)
  have hname : ∀ name, ∀ f ∈ [("name", Json.text name)], Settled f.2 :=
    fun name => List.forall_mem_singleton.mpr (.text name)
  cases x with
  | constructor x =>
      exact readMember_record (fun _ => rfl) (hmethod x) (writeMethodFields_settled hc)
        (readMethod_reads ht hc)
  | method x =>
      exact readMember_record (fun _ => rfl) (hmethod x) (writeMethodFields_settled hc)
        (readMethod_reads ht hc)
  | field f =>
      exact readMember_record (fun _ => rfl) (by simp [writeFieldFields])
        (writeFieldFields_settled f) (readField_reads (ht f.type List.mem_cons_self))
  | property name =>
      exact readMember_record (fun _ => rfl) (by simp) (hname name) (readNameOnly_reads name)
  | event name =>
      exact readMember_record (fun _ => rfl) (by simp) (hname name) (readNameOnly_reads name)
  | nestedType name =>
      exact readMember_record (fun _ => rfl) (by simp) (hname name) (readNameOnly_reads name)
  | unsupported => exact readMember_kinded (by simp) nofun fun _ _ => rfl

/-! ## Definitions and manifests -/

theorem readDefinition_reads {d : Definition} (ht : ∀ t ∈ d.types, t.isWellFormed = true)
    (hc : ∀ c ∈ d.constants, c.kind ≠ .real) :
    readDefinition.Reads (writeDefinition Constant.toJson d) d := by
  obtain ⟨hbase, hinterfaces, hgenerics, hmembers⟩ := Definition.forall_types.mp ht
  have hconstants := List.forall_mem_flatMap.mp hc
  simp only [writeDefinition, listField_eq]
  refine record_reads ?_ ?_
  · have hnames : (["name", "access", "is_interface", "is_value_type", "is_abstract", "is_sealed"]
        ++ ["base"] ++ ["interfaces"] ++ ["generic_params"] ++ ["members"]).Nodup := by decide
    refine hnames.sublist ?_
    simp only [List.map_append]
    exact ((((List.Sublist.refl _).append (names_optionalField _ _)).append
      (names_optionalField _ _)).append (names_optionalField _ _)).append
      (names_optionalField _ _)
  · exact (map _ (required rfl (text_reads d.name)))
      |>.seq (withDefault _ rfl (choice_reads d.access))
      |>.seq (flag rfl)
      |>.seq (flag rfl)
      |>.seq (flag rfl)
      |>.seq (flag rfl)
      |>.seq (optional (by simp [List.lookup_cons, List.lookup_append])
        fun t h => optional_reference_reads (hbase t h))
      |>.seq (list (by simp [List.lookup_cons, List.lookup_append])
        fun t h => reference_reads (hinterfaces t h))
      |>.seq (list (by simp [List.lookup_cons, List.lookup_append])
        fun p hp => readGenericParam_reads (hgenerics p hp))
      |>.seq (list (by simp [List.lookup_cons, List.lookup_append])
        fun x hx => readMember_reads (hmembers x hx) (hconstants x hx))

theorem readManifest_reads {M : Manifest}
    (ht : ∀ d ∈ M.definitions, ∀ t ∈ d.types, t.isWellFormed = true)
    (hc : ∀ c ∈ M.constants, c.kind ≠ .real) : readManifest.Reads M.toJson M := by
  obtain ⟨htypes, hreferences⟩ := List.forall_mem_append.mp ht
  obtain ⟨hctypes, hcreferences⟩ := List.forall_mem_append.mp (List.forall_mem_flatMap.mp hc)
  simp only [Manifest.toJson, writeManifest, listField_eq]
  refine record_reads ?_ ?_
  · have hnames : (["identity", "types"] ++ ["references"] ++ ["value_types"]).Nodup := by decide
    refine hnames.sublist ?_
    simp only [List.map_append]
    exact ((List.Sublist.refl _).append (names_optionalField _ _)).append
      (names_optionalField _ _)
  · exact (map _ (required rfl (text_reads M.identity)))
      |>.seq (withDefault _ rfl (list_reads_of_mem fun d hd =>
        readDefinition_reads (htypes d hd) (hctypes d hd)))
      |>.seq (list (by simp [List.lookup_cons, List.lookup_append])
        fun d hd => readDefinition_reads (hreferences d hd) (hcreferences d hd))
      |>.seq (list (by simp [List.lookup_cons, List.lookup_append]) fun s _ => text_reads s)

/-! ## Written manifests are legible and not deep -/

theorem Shallow.constant (n : Nat) {c : Constant} (h : c.kind ≠ .real) : Shallow n c.toJson := by
  cases c with
  | boolean b => exact .boolean n b
  | signed i => exact ⟨Json.Numeral.isWord_ofInt i.value, Nat.zero_le n⟩
  | unsigned i => exact ⟨Json.Numeral.isWord_ofInt i.value, Nat.zero_le n⟩
  | real x => exact absurd rfl h
  | text s => exact .text n s

theorem writeGenericParam_shallow (n : Nat) (p : GenericParam) :
    Shallow (n + 2) (writeGenericParam p) := by
  refine ShallowFields.object ?_
  refine (((ShallowFields.scalars _ (by simp)).append (.optional_of_mem fun v hv => ?_)).append
    (.list_of_mem fun t _ => .text n _)).append (.scalars _ (by simp))
  obtain ⟨t, -, rfl⟩ := Option.map_eq_some_iff.mp hv
  exact .text _ _

theorem writeParameter_shallow (n : Nat) {p : Parameter} (hc : ∀ c ∈ p.default, c.kind ≠ .real) :
    Shallow (n + 2) (writeParameter Constant.toJson p) := by
  refine ShallowFields.object ?_
  refine ((ShallowFields.scalars _ (by simp [Json.ofReference])).append
    (.optional_of_mem fun v hv => ?_)).append (.list_of_mem fun s _ => .text n s)
  obtain ⟨c, hdefault, rfl⟩ := Option.map_eq_some_iff.mp hv
  exact .constant _ (hc c hdefault)

theorem writeSlotRow_shallow (n : Nat) (r : SlotRow) : Shallow (n + 1) (writeSlotRow r) :=
  ShallowFields.object (.scalars n (by simp [Json.ofReference]))

theorem writeMethodFields_shallow (n : Nat) {x : Method} (hc : ∀ c ∈ x.constants, c.kind ≠ .real) :
    ShallowFields (n + 3) (writeMethodFields Constant.toJson x) := by
  have hdefaults := Method.forall_constants.mp hc
  exact ((((ShallowFields.scalars _ (by simp [Json.ofNamed, Json.ofReference])).append
    (.list_of_mem fun p hp => writeParameter_shallow n (hdefaults p hp))).append
    (.list_of_mem fun p _ => writeGenericParam_shallow n p)).append
    (.list_of_mem fun s _ => .text _ s)).append
    (.list_of_mem fun r _ => writeSlotRow_shallow (n + 1) r)

theorem ShallowFields.kinded {n : Nat} (kind : String) {fs : List (String × Json)}
    (h : ShallowFields n fs) : Shallow (n + 1) (kinded kind fs) :=
  ShallowFields.object (.cons (.text n kind) h)

theorem writeMember_shallow (n : Nat) {x : Member} (hc : ∀ c ∈ x.constants, c.kind ≠ .real) :
    Shallow (n + 4) (writeMember Constant.toJson x) := by
  cases x with
  | constructor x => exact (writeMethodFields_shallow n hc).kinded _
  | method x => exact (writeMethodFields_shallow n hc).kinded _
  | field f =>
      exact (ShallowFields.scalars _
        (by simp [writeFieldFields, Json.ofNamed, Json.ofReference])).kinded _
  | property name => exact (ShallowFields.scalars _ (by simp)).kinded _
  | event name => exact (ShallowFields.scalars _ (by simp)).kinded _
  | nestedType name => exact (ShallowFields.scalars _ (by simp)).kinded _
  | unsupported => exact (ShallowFields.nil _).kinded _

theorem writeDefinition_shallow (n : Nat) {d : Definition}
    (hc : ∀ c ∈ d.constants, c.kind ≠ .real) :
    Shallow (n + 6) (writeDefinition Constant.toJson d) := by
  have hconstants := List.forall_mem_flatMap.mp hc
  refine ShallowFields.object ?_
  refine ((((ShallowFields.scalars _ (by simp [Json.ofNamed])).append
    (.optional_of_mem fun v hv => ?_)).append (.list_of_mem fun t _ => .text _ _)).append
    (.list_of_mem fun p _ => writeGenericParam_shallow (n + 2) p)).append
    (.list_of_mem fun x hx => writeMember_shallow n (hconstants x hx))
  obtain ⟨t, -, rfl⟩ := Option.map_eq_some_iff.mp hv
  exact .text _ _

theorem toJson_shallow {M : Manifest} (hc : ∀ c ∈ M.constants, c.kind ≠ .real) :
    Shallow 8 M.toJson := by
  obtain ⟨htypes, hreferences⟩ := List.forall_mem_append.mp (List.forall_mem_flatMap.mp hc)
  exact (((ShallowFields.cons (.text _ _) (.cons (.array_of_mem fun d hd =>
    writeDefinition_shallow 0 (htypes d hd)) (.nil _))).append
    (.list_of_mem fun d hd => writeDefinition_shallow 0 (hreferences d hd))).append
    (.list_of_mem fun s _ => .text _ s)).object

/-! ## Texts -/

theorem readText_of_parse {M : Manifest} {s : String}
    (ht : ∀ d ∈ M.definitions, ∀ t ∈ d.types, t.isWellFormed = true)
    (hc : ∀ c ∈ M.constants, c.kind ≠ .real) (hs : Json.parse s = ⟨M.toJson, true⟩) :
    readText .json readManifest s = .ok M := by
  obtain ⟨-, hdepth⟩ := toJson_shallow hc
  have hdatum : readManifest M.toJson.datum = .ok M :=
    readManifest_reads ht hc Json.depthLimit (Nat.le_trans hdepth (by decide))
  rw [readText, TextFormat.datum, hs]
  simp only [Begun.map, hdatum, if_true]

/-- The two ways to write a value. -/
def layouts : List (Json → String) := [Json.line, Json.pretty]

theorem readText_toJson {M : Manifest}
    (ht : ∀ d ∈ M.definitions, ∀ t ∈ d.types, t.isWellFormed = true)
    (hc : ∀ c ∈ M.constants, c.kind ≠ .real) {write : Json → String} (hwrite : write ∈ layouts) :
    readText .json readManifest (write M.toJson) = .ok M := by
  obtain ⟨hlegible, -⟩ := toJson_shallow hc
  rcases List.mem_pair.mp hwrite with rfl | rfl
  · exact readText_of_parse ht hc (Json.parse_line hlegible)
  · exact readText_of_parse ht hc (Json.parse_pretty hlegible)

/-- Reads a manifest and writes its normal form. -/
def normalise (write : Json → String) (s : String) : Except Fault String :=
  (readText .json readManifest s).map fun M => write M.toJson

/-- **The normal form of a manifest without doubles is read as that manifest**, so
that normalising it again changes nothing. -/
theorem readText_normalForm {s : String} {M : Manifest}
    (h : readText .json readManifest s = .ok M) (hc : ∀ c ∈ M.constants, c.kind ≠ .real)
    {write : Json → String} (hwrite : write ∈ layouts) :
    readText .json readManifest (write M.toJson) = .ok M
      ∧ normalise write (write M.toJson) = .ok (write M.toJson) := by
  have ht := readManifest_yields.readText h
  have hread := readText_toJson ht hc hwrite
  exact ⟨hread, by rw [normalise, hread]; rfl⟩

/-- A dimmer that starts at a negative level, and a member of a kind that nobody
knows. Fields stand in another order than in the normal form. A second type, its
generic parameter and its one member are lists. -/
def dimmerText : String :=
  Json.line (.object [("types", .array [.object [("name", .text "Dimmer"),
    ("members", .array [
      .object [("name", .text "Turn"), ("kind", .text "method"), ("params", .array [
        .object [("name", .text "level"), ("type", .text " Level "), ("default", .ofInt (-7))]])],
      .object [("kind", .text "socket"), ("left", .boolean true)]])],
    .array [.text "Rail", .text "public", .boolean false, .boolean false, .boolean false,
      .boolean false, .null, .array [], .array [.array [.text "T"]],
      .array [.array [.text "property", .text "Slot"]]]]),
    ("identity", .text "Lamp")])

def turn : Method :=
  { Method.plain "Turn" with
    access := .private
    params := [{ Parameter.plain "level" (.named "Level" []) with
      default := some (.signed ⟨-7, by decide, by decide⟩) }] }

def dimmer : Manifest where
  identity := "Lamp"
  types :=
    [{ openClass "Dimmer" [] none [] with
        access := .notPublic
        members := [.method turn, .unsupported] },
      { openClass "Rail" ["T"] none [] with members := [.property "Slot"] }]
  references := []
  valueTypes := []

theorem dimmer_normalised :
    readText .json readManifest dimmerText = .ok dimmer
      ∧ readText .json readManifest dimmer.toJson.pretty = .ok dimmer := by
  have hread : readText .json readManifest dimmerText = .ok dimmer := by
    have hnumber := Json.Numeral.isWord_ofInt (-7)
    rw [dimmerText, readText, TextFormat.datum, Json.parse_line]
    · rfl
    · simp only [Json.Legible, Json.FieldsLegible, Json.ItemsLegible, and_true, true_and]
      exact hnumber
  have hpretty : Json.pretty ∈ layouts := List.mem_pair.mpr (Or.inr rfl)
  exact ⟨hread, (readText_normalForm hread (by decide) hpretty).1⟩

end Schema

end ApiBaseline
