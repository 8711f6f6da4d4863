import ApiBaseline.Proofs.Schema.Reader
import ApiBaseline.Schema.Document

/-!
# Documents are kept without loss

Every record of a document is read from its own written form, by the laws of
its fields. A written document is legible and not deep, so its text is read as
what was written: nothing of a document is lost in its text, and documents that
differ have different texts (`ofText_toText`).
-/

namespace ApiBaseline.Schema

open FieldReader.Reads (required withDefault flag optional_text seq map)

/-! ## Names of enumerated values -/

instance : LawfulNamed Direction := ⟨fun d => by cases d <;> decide⟩

instance : LawfulNamed MemberKind := ⟨fun k => by cases k <;> decide⟩

instance : LawfulNamed Accessibility := ⟨fun a => by cases a <;> decide⟩

instance : LawfulNamed TypeKind := ⟨fun k => by cases k <;> decide⟩

/-! ## Records -/

theorem readParameterRecord_reads (p : ParameterRecord) :
    readParameterRecord.Reads (writeParameterRecord p) p := by
  refine record_reads ?_ ?_
  · have hnames : ["name", "type", "direction", "default_value", "is_params"].Nodup := by
      decide
    refine hnames.sublist ?_
    rw [List.map_append, List.map_append]
    exact ((List.Sublist.refl ["name", "type", "direction"]).append
      (names_optionalField "default_value" _)).append (List.Sublist.refl _)
  · exact (map _ (required rfl (text_reads p.name)))
      |>.seq (required rfl (text_reads p.typeName))
      |>.seq (withDefault _ rfl (choice_reads p.direction))
      |>.seq (optional_text (by simp [List.lookup_cons, List.lookup_append]))
      |>.seq (flag (by simp [List.lookup_cons, List.lookup_append]))

theorem readConstraintRecord_reads (c : ConstraintRecord) :
    readConstraintRecord.Reads (writeConstraintRecord c) c := by
  refine record_reads (by simp) ?_
  exact (map _ (required rfl (text_reads c.parameterName)))
    |>.seq (withDefault _ rfl (texts_reads c.bounds))
    |>.seq (flag rfl)
    |>.seq (flag rfl)
    |>.seq (flag rfl)

theorem readMemberRecord_reads (m : MemberRecord) :
    readMemberRecord.Reads (writeMemberRecord m) m := by
  refine record_reads ?_ ?_
  · have hnames : (["kind", "name", "visibility", "is_static", "is_sealed", "is_virtual",
        "is_override", "is_abstract", "is_new", "is_extension", "is_const", "is_readonly"]
        ++ ["return_type"] ++ ["parameters", "generic_constraints"]
        ++ ["explicit_interface"] ++ ["implemented_interface"]).Nodup := by decide
    refine hnames.sublist ?_
    simp only [List.map_append]
    exact ((((List.Sublist.refl _).append (names_optionalField _ _)).append
      (List.Sublist.refl _)).append (names_optionalField _ _)).append (names_optionalField _ _)
  · exact (map _ (required rfl (choice_reads m.kind)))
      |>.seq (required rfl (text_reads m.name))
      |>.seq (required rfl (choice_reads m.visibility))
      |>.seq (flag rfl)
      |>.seq (flag rfl)
      |>.seq (flag rfl)
      |>.seq (flag rfl)
      |>.seq (flag rfl)
      |>.seq (flag rfl)
      |>.seq (flag rfl)
      |>.seq (flag rfl)
      |>.seq (flag rfl)
      |>.seq (optional_text (by simp [List.lookup_cons, List.lookup_append]))
      |>.seq (withDefault _
        (by simp [List.lookup_cons, List.lookup_append])
        (list_reads readParameterRecord_reads m.parameters))
      |>.seq (withDefault _
        (by simp [List.lookup_cons, List.lookup_append])
        (list_reads readConstraintRecord_reads m.constraints))
      |>.seq (optional_text (by simp [List.lookup_cons, List.lookup_append]))
      |>.seq (optional_text (by simp [List.lookup_cons, List.lookup_append]))

theorem readTypeRecord_reads (t : TypeRecord) :
    readTypeRecord.Reads (writeTypeRecord t) t := by
  refine record_reads ?_ ?_
  · have hnames : (["name", "kind", "visibility", "is_static", "is_abstract", "is_sealed"]
        ++ ["base_type"]
        ++ ["implemented_interfaces", "generic_constraints", "members"]).Nodup := by decide
    refine hnames.sublist ?_
    simp only [List.map_append]
    exact ((List.Sublist.refl _).append (names_optionalField _ _)).append
      (List.Sublist.refl _)
  · exact (map _ (required rfl (text_reads t.name)))
      |>.seq (required rfl (choice_reads t.kind))
      |>.seq (required rfl (choice_reads t.visibility))
      |>.seq (flag rfl)
      |>.seq (flag rfl)
      |>.seq (flag rfl)
      |>.seq (optional_text (by simp [List.lookup_cons, List.lookup_append]))
      |>.seq (withDefault _
        (by simp [List.lookup_cons, List.lookup_append])
        (texts_reads t.interfaces))
      |>.seq (withDefault _
        (by simp [List.lookup_cons, List.lookup_append])
        (list_reads readConstraintRecord_reads t.constraints))
      |>.seq (withDefault _
        (by simp [List.lookup_cons, List.lookup_append])
        (list_reads readMemberRecord_reads t.members))

theorem readDocument_reads (d : Document) : readDocument.Reads (writeDocument d) d := by
  refine record_reads (by simp) ?_
  exact (map _ (required rfl (text_reads d.identity)))
    |>.seq (required rfl (list_reads readTypeRecord_reads d.types))

/-! ## Written documents are legible and not deep -/

/-- The value is legible and at most `n` deep. -/
def Shallow (n : Nat) (v : Json) : Prop := v.Legible ∧ v.depth ≤ n

/-- The fields are legible and at most `n` deep. -/
def ShallowFields (n : Nat) (fs : List (String × Json)) : Prop :=
  Json.FieldsLegible fs ∧ Json.fieldsDepth fs ≤ n

theorem Shallow.array_of_mem {α : Type} {n : Nat} {write : α → Json} {as : List α}
    (h : ∀ a ∈ as, Shallow n (write a)) : Shallow (n + 1) (.array (as.map write)) := by
  have hmem : ∀ v ∈ as.map write, Shallow n v := List.forall_mem_map.mpr h
  exact ⟨Json.itemsLegible_of_forall fun v hv => (hmem v hv).1,
    Nat.succ_le_succ (Json.itemsDepth_le fun v hv => (hmem v hv).2)⟩

theorem Shallow.array {α : Type} {n : Nat} {write : α → Json}
    (h : ∀ a, Shallow n (write a)) (as : List α) :
    Shallow (n + 1) (.array (as.map write)) :=
  .array_of_mem fun a _ => h a

theorem ShallowFields.object {n : Nat} {fs : List (String × Json)}
    (h : ShallowFields n fs) : Shallow (n + 1) (.object fs) :=
  ⟨h.1, Nat.succ_le_succ h.2⟩

theorem ShallowFields.append {n : Nat} {fs gs : List (String × Json)}
    (hf : ShallowFields n fs) (hg : ShallowFields n gs) : ShallowFields n (fs ++ gs) :=
  ⟨Json.fieldsLegible_append.mpr ⟨hf.1, hg.1⟩, by
    rw [Json.fieldsDepth_append]
    exact Nat.max_le.mpr ⟨hf.2, hg.2⟩⟩

theorem ShallowFields.nil (n : Nat) : ShallowFields n [] := ⟨trivial, Nat.zero_le n⟩

theorem ShallowFields.cons {n : Nat} {k : String} {v : Json} {fs : List (String × Json)}
    (hv : Shallow n v) (hf : ShallowFields n fs) : ShallowFields n ((k, v) :: fs) :=
  ⟨⟨hv.1, hf.1⟩, Nat.max_le.mpr ⟨hv.2, hf.2⟩⟩

theorem Shallow.text (n : Nat) (s : String) : Shallow n (.text s) :=
  ⟨trivial, Nat.zero_le n⟩

theorem Shallow.boolean (n : Nat) (b : Bool) : Shallow n (.boolean b) :=
  ⟨trivial, Nat.zero_le n⟩

theorem Shallow.texts (n : Nat) (texts : List String) : Shallow (n + 1) (.ofTexts texts) :=
  Shallow.array (Shallow.text n) texts

theorem ShallowFields.optional_of_mem {n : Nat} {name : String} {o : Option Json}
    (h : ∀ v ∈ o, Shallow n v) : ShallowFields n (Json.optionalField name o) := by
  cases o with
  | none => exact .nil n
  | some v => exact .cons (h v rfl) (.nil n)

theorem ShallowFields.optional (n : Nat) (name : String) (o : Option String) :
    ShallowFields n (Json.optionalField name (o.map .text)) :=
  .optional_of_mem fun v hv => by
    obtain ⟨s, -, rfl⟩ := Option.map_eq_some_iff.mp hv
    exact .text n s

theorem ShallowFields.list_of_mem {α : Type} {n : Nat} {name : String} {write : α → Json}
    {as : List α} (h : ∀ a ∈ as, Shallow n (write a)) :
    ShallowFields (n + 1) (Json.listField name (as.map write)) := by
  cases as with
  | nil => exact .nil _
  | cons a as => exact .cons (.array_of_mem h) (.nil _)

/-- Fields that hold texts and flags only. -/
theorem ShallowFields.scalars (n : Nat) {fs : List (String × Json)}
    (h : ∀ f ∈ fs, (∃ s, f.2 = .text s) ∨ ∃ b, f.2 = .boolean b) : ShallowFields n fs := by
  induction fs with
  | nil => exact .nil n
  | cons f fs ih =>
      have hf : Shallow n f.2 := by
        rcases h f List.mem_cons_self with ⟨s, hs⟩ | ⟨b, hb⟩
        · exact hs ▸ .text n s
        · exact hb ▸ .boolean n b
      exact .cons hf (ih fun g hg => h g (List.mem_cons_of_mem _ hg))

theorem writeParameterRecord_shallow (n : Nat) (p : ParameterRecord) :
    Shallow (n + 1) (writeParameterRecord p) :=
  (((ShallowFields.scalars n (by simp [Json.ofNamed])).append
    (.optional n _ _)).append (.scalars n (by simp))).object

theorem writeConstraintRecord_shallow (n : Nat) (c : ConstraintRecord) :
    Shallow (n + 2) (writeConstraintRecord c) :=
  ShallowFields.object (.cons (.text _ _) (.cons (.texts n _) (.scalars _ (by simp))))

theorem writeMemberRecord_shallow (n : Nat) (m : MemberRecord) :
    Shallow (n + 4) (writeMemberRecord m) :=
  (((((ShallowFields.scalars _ (by simp [Json.ofNamed])).append (.optional _ _ _)).append
    (.cons (.array (writeParameterRecord_shallow (n + 1)) _)
      (.cons (.array (writeConstraintRecord_shallow n) _) (.nil _)))).append
    (.optional _ _ _)).append (.optional _ _ _)).object

theorem writeTypeRecord_shallow (n : Nat) (t : TypeRecord) :
    Shallow (n + 6) (writeTypeRecord t) :=
  (((ShallowFields.scalars _ (by simp [Json.ofNamed])).append (.optional _ _ _)).append
    (.cons (.texts (n + 4) _) (.cons (.array (writeConstraintRecord_shallow (n + 2)) _)
      (.cons (.array (writeMemberRecord_shallow n) _) (.nil _))))).object

theorem writeDocument_shallow (d : Document) : Shallow 8 (writeDocument d) :=
  ShallowFields.object (.cons (.text _ _)
    (.cons (.array (writeTypeRecord_shallow 0) _) (.nil _)))

/-! ## Texts -/

theorem readText_toText (d : Document) : Document.ofText d.toText = .ok d := by
  obtain ⟨hlegible, hdepth⟩ := writeDocument_shallow d
  have hlevels : (writeDocument d).depth ≤ Json.depthLimit :=
    Nat.le_trans hdepth (by decide)
  have hdatum : readDocument (writeDocument d).datum = .ok d :=
    readDocument_reads d Json.depthLimit hlevels
  rw [Document.ofText, Document.toText, readText, TextFormat.datum,
    Json.parse_pretty hlegible]
  simp only [Begun.map, hdatum, if_true]

/-- **A document is read back from its text, and no other document has that
text.** -/
theorem ofText_toText :
    (∀ d : Document, Document.ofText d.toText = .ok d)
      ∧ Function.Injective Document.toText := by
  refine ⟨readText_toText, fun d e h => ?_⟩
  have hok : (Except.ok d : Except Fault Document) = .ok e := by
    rw [← readText_toText d, h, readText_toText e]
  exact Except.ok.inj hok

end ApiBaseline.Schema
