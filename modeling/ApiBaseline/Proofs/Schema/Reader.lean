import ApiBaseline.Json.Datum
import ApiBaseline.Proofs.Json.RoundTrip
import ApiBaseline.Schema.Reader
import ApiBaseline.Schema.Writer

/-!
# Reading written values

What a reader makes of a JSON value is said without the datum in between:
`Reader.Reads r v a` holds when `r` reads `v` as `a` wherever there is room for
the depth of `v`, and `FieldReader.Reads` says the same of the fields of an
object whose names are distinct. The laws follow the combinators: a record is
read when its fields are, and a field by looking its name up. A list is read as
the record whose fields have the names in turn (`fields_list_eq_ok_iff`).
-/

namespace ApiBaseline

/-! ## Depth -/

namespace Json

theorem depth_le_fieldsDepth {fs : List (String × Json)} {k : String} {v : Json}
    (h : (k, v) ∈ fs) : v.depth ≤ fieldsDepth fs := by
  induction fs with
  | nil => cases h
  | cons f fs ih =>
      rw [fieldsDepth]
      rcases List.mem_cons.mp h with rfl | h'
      · exact Nat.le_max_left _ _
      · exact Nat.le_trans (ih h') (Nat.le_max_right _ _)

theorem itemsDepth_le {vs : List Json} {n : Nat} (h : ∀ v ∈ vs, v.depth ≤ n) :
    itemsDepth vs ≤ n := by
  induction vs with
  | nil => exact Nat.zero_le n
  | cons v vs ih =>
      exact Nat.max_le.mpr
        ⟨h v List.mem_cons_self, ih fun w hw => h w (List.mem_cons_of_mem _ hw)⟩

theorem fieldsDepth_append (fs gs : List (String × Json)) :
    fieldsDepth (fs ++ gs) = max (fieldsDepth fs) (fieldsDepth gs) := by
  induction fs with
  | nil => simp [fieldsDepth]
  | cons f fs ih => rw [List.cons_append, fieldsDepth, ih, fieldsDepth, Nat.max_assoc]

end Json

/-- The array of items, unless there are none. -/
def Json.filled? : List Json → Option Json
  | [] => none
  | items => some (.array items)

namespace Schema

variable {α β : Type}

/-! ## What readers make of values -/

/-- The reader reads the value as `a`, wherever there is room for it. -/
def Reader.Reads (r : Reader α) (v : Json) (a : α) : Prop :=
  ∀ levels, v.depth ≤ levels → r (v.toDatum levels) = .ok a

/-- The fields of an object under their names. -/
def namedData (levels : Nat) (fs : List (String × Json)) : Fields :=
  fs.map fun (k, v) => (some k, v.toDatum levels)

/-- The part is read from fields with distinct names as `a`. -/
def FieldReader.Reads (p : FieldReader α) (fs : List (String × Json)) (a : α) : Prop :=
  ∀ levels, Json.fieldsDepth fs ≤ levels → (fs.map (·.1)).Nodup →
    p.read (namedData levels fs) = .ok a

/-! ## Scalars -/

theorem text_reads (s : String) : Reader.text.Reads (.text s) s := fun _ _ => rfl

theorem optional_text_reads (s : String) :
    (Reader.optional Reader.text).Reads (.text s) (some s) := fun _ _ => rfl

theorem flag_reads (b : Bool) : Reader.flag.Reads (.boolean b) b := fun _ _ => rfl

/-- Enumerated values whose names tell them apart. -/
class LawfulNamed (α : Type) [Named α] : Prop where
  /-- A name stands for its value. -/
  ofName?_name : ∀ a : α, Named.ofName? (Named.name a) = some a

theorem choice_reads [Named α] [LawfulNamed α] (a : α) :
    (Reader.choice α).Reads (.ofNamed a) a := by
  intro levels _
  show Reader.demand (Named.ofName? (Named.name a)) = .ok a
  rw [LawfulNamed.ofName?_name]
  rfl

/-! ## Lists -/

/-- A list is read when each of its elements is. -/
theorem list_reads_of_mem {item : Reader α} {write : α → Json} {as : List α}
    (h : ∀ a ∈ as, item.Reads (write a) a) :
    (Reader.list item).Reads (.array (as.map write)) as := by
  have hitems : ∀ (levels : Nat) (bs : List α), bs ⊆ as →
      Json.itemsDepth (bs.map write) ≤ levels →
      Reader.each item (Json.itemData levels (bs.map write)) = .ok bs := by
    intro levels bs
    induction bs with
    | nil => exact fun _ _ => rfl
    | cons b bs ih =>
        intro hsub hdepth
        obtain ⟨hb, hsub⟩ := List.cons_subset.mp hsub
        rw [List.map_cons, Json.itemsDepth, Nat.max_le] at hdepth
        rw [List.map_cons, Json.itemData, Reader.each, h b hb levels hdepth.1, ih hsub hdepth.2]
        rfl
  intro levels hdepth
  rw [Json.depth] at hdepth
  show Reader.items item (Json.toDatum levels (.array (as.map write))) = .ok as
  rw [Json.toDatum, if_neg (by omega), Reader.items]
  exact hitems (levels - 1) as (List.Subset.refl as) (by omega)

theorem list_reads {item : Reader α} {write : α → Json}
    (h : ∀ a, item.Reads (write a) a) (as : List α) :
    (Reader.list item).Reads (.array (as.map write)) as :=
  list_reads_of_mem fun a _ => h a

theorem texts_reads (texts : List String) :
    (Reader.list Reader.text).Reads (.ofTexts texts) texts := list_reads text_reads texts

/-! ## Fields -/

/-- The fields with a name, when positions are counted from `n` on. -/
def occurrencesFrom (n : Nat) (name : String) (fields : Fields) : List (Nat × Datum) :=
  (fields.zipIdx n).filterMap fun ((k, v), i) => if k = some name then some (i, v) else none

theorem occurrencesFrom_absent {name : String} {fs : List (String × Json)}
    (h : name ∉ fs.map (·.1)) (n levels : Nat) :
    occurrencesFrom n name (namedData levels fs) = [] := by
  induction fs generalizing n with
  | nil => rfl
  | cons f fs ih =>
      rw [List.map_cons, List.mem_cons, not_or] at h
      have hne : ¬ some f.1 = some name := fun heq => h.1 (Option.some.inj heq).symm
      simpa [occurrencesFrom, namedData, hne] using ih h.2 (n + 1)

theorem occurrencesFrom_unique {name : String} {v : Json} {fs : List (String × Json)}
    (hnodup : (fs.map (·.1)).Nodup) (h : fs.lookup name = some v) (n levels : Nat) :
    ∃ i, occurrencesFrom n name (namedData levels fs) = [(i, v.toDatum levels)] := by
  induction fs generalizing n with
  | nil => cases h
  | cons f fs ih =>
      obtain ⟨k, w⟩ := f
      rw [List.map_cons, List.nodup_cons] at hnodup
      by_cases hk : name = k
      · subst hk
        obtain rfl : w = v := by simpa using h
        refine ⟨n, ?_⟩
        have habsent := occurrencesFrom_absent hnodup.1 (n + 1) levels
        simpa [occurrencesFrom, namedData] using habsent
      · rw [List.lookup_cons, beq_false_of_ne hk] at h
        obtain ⟨i, hi⟩ := ih hnodup.2 h (n + 1)
        have hne : ¬ some k = some name := fun heq => hk (Option.some.inj heq).symm
        exact ⟨i, by simpa [occurrencesFrom, namedData, hne] using hi⟩

theorem mem_of_lookup {fs : List (String × Json)} {name : String} {v : Json}
    (h : fs.lookup name = some v) : (name, v) ∈ fs := by
  obtain ⟨front, back, rfl, -⟩ := List.lookup_eq_some_iff.mp h
  simp

theorem find?_present {r : Reader α} {v : Json} {a : α} (hr : r.Reads v a) {name : String}
    {fs : List (String × Json)} (h : fs.lookup name = some v)
    (hnodup : (fs.map (·.1)).Nodup) {levels : Nat} (hdepth : Json.fieldsDepth fs ≤ levels) :
    FieldReader.find? name r (namedData levels fs) = .ok (some a) := by
  obtain ⟨i, hi⟩ := occurrencesFrom_unique hnodup h 0 levels
  have hv : r (v.toDatum levels) = .ok a :=
    hr levels (Nat.le_trans (Json.depth_le_fieldsDepth (mem_of_lookup h)) hdepth)
  have hocc : FieldReader.occurrences name (namedData levels fs) = [(i, v.toDatum levels)] := hi
  rw [FieldReader.find?, hocc]
  simp only [hv]

theorem find?_absent (r : Reader α) {name : String} {fs : List (String × Json)}
    (h : fs.lookup name = none) (levels : Nat) :
    FieldReader.find? name r (namedData levels fs) = .ok none := by
  have hnot : name ∉ fs.map (·.1) := by
    intro hmem
    obtain ⟨f, hf, rfl⟩ := List.mem_map.mp hmem
    have hne := List.lookup_eq_none_iff.mp h f hf
    simp at hne
  have hocc : FieldReader.occurrences name (namedData levels fs) = [] :=
    occurrencesFrom_absent hnot 0 levels
  rw [FieldReader.find?, hocc]

namespace FieldReader

variable {fs : List (String × Json)} {name : String}

theorem Reads.required {r : Reader α} {v : Json} {a : α} (h : fs.lookup name = some v)
    (hr : r.Reads v a) : (FieldReader.required name r).Reads fs a := by
  intro levels hdepth hnodup
  simp only [FieldReader.required, find?_present hr h hnodup hdepth]

theorem Reads.withDefault {r : Reader α} {v : Json} {a : α} (standard : α)
    (h : fs.lookup name = some v) (hr : r.Reads v a) :
    (FieldReader.withDefault name r standard).Reads fs a := by
  intro levels hdepth hnodup
  simp only [FieldReader.withDefault, find?_present hr h hnodup hdepth]
  rfl

theorem Reads.flag {b : Bool} (h : fs.lookup name = some (.boolean b)) :
    (FieldReader.flag name).Reads fs b :=
  Reads.withDefault false h (flag_reads b)

/-- An optional value is read from the field that holds it, and without a field
as nothing. -/
theorem Reads.optional {r : Reader α} {write : α → Json} {o : Option α}
    (h : fs.lookup name = o.map write)
    (hr : ∀ a ∈ o, (Reader.optional r).Reads (write a) (some a)) :
    (FieldReader.optional name r).Reads fs o := by
  cases o with
  | some a => exact Reads.withDefault none h (hr a rfl)
  | none =>
      intro levels _ _
      simp only [FieldReader.optional, FieldReader.withDefault, find?_absent _ h levels]
      rfl

theorem Reads.optional_text {o : Option String} (h : fs.lookup name = o.map .text) :
    (FieldReader.optional name Reader.text).Reads fs o :=
  Reads.optional h fun s _ => optional_text_reads s

/-- A list is read from the field that holds it, and without a field as empty. -/
theorem Reads.list {item : Reader α} {write : α → Json} {as : List α}
    (h : fs.lookup name = Json.filled? (as.map write)) (hr : ∀ a ∈ as, item.Reads (write a) a) :
    (FieldReader.list name item).Reads fs as := by
  cases as with
  | cons a as => exact Reads.withDefault [] h (list_reads_of_mem hr)
  | nil =>
      intro levels _ _
      simp only [FieldReader.list, FieldReader.withDefault, find?_absent _ h levels]
      rfl

theorem Reads.seq {f : FieldReader (α → β)} {x : FieldReader α} {g : α → β} {a : α}
    (hf : f.Reads fs g) (hx : x.Reads fs a) : (f <*> x).Reads fs (g a) := by
  intro levels hdepth hnodup
  show combine (f.read _) (x.read _) = _
  rw [hf levels hdepth hnodup, hx levels hdepth hnodup]
  rfl

theorem Reads.map {x : FieldReader α} {a : α} (g : α → β) (hx : x.Reads fs a) :
    (g <$> x).Reads fs (g a) := by
  intro levels hdepth hnodup
  show combine (.ok g) (x.read _) = _
  rw [hx levels hdepth hnodup]
  rfl

end FieldReader

/-! ## Records -/

theorem nameFields_fieldData (names : List String) (levels : Nat)
    (fs : List (String × Json)) :
    Reader.nameFields names (Json.fieldData levels fs) = namedData levels fs := by
  induction fs with
  | nil => rfl
  | cons f fs ih =>
      obtain ⟨k, v⟩ := f
      rw [Reader.nameFields, Json.fieldData, List.map_cons, namedData, List.map_cons]
      exact congrArg _ ih

theorem checkKeys_eq_ok {fs : List (Datum × Datum)} (h : ∀ f ∈ fs, f.1.label?.isNone = false) :
    Reader.checkKeys fs = .ok () := by
  rw [Reader.checkKeys, List.findIdx?_eq_none_iff.mpr h]

theorem checkKeys_fieldData (levels : Nat) (fs : List (String × Json)) :
    Reader.checkKeys (Json.fieldData levels fs) = .ok () := by
  refine checkKeys_eq_ok fun f hf => ?_
  induction fs with
  | nil => cases hf
  | cons g fs ih =>
      rcases List.mem_cons.mp hf with rfl | hf'
      · rfl
      · exact ih hf'

theorem record_reads {parts : FieldReader α} {fs : List (String × Json)} {a : α}
    (hnodup : (fs.map (·.1)).Nodup) (h : parts.Reads fs a) :
    (Reader.record parts).Reads (.object fs) a := by
  intro levels hdepth
  rw [Json.depth] at hdepth
  show Reader.fields parts (Json.toDatum levels (.object fs)) = .ok a
  rw [Json.toDatum, if_neg (by omega), Reader.fields, Reader.allFields,
    nameFields_fieldData, h (levels - 1) (by omega) hnodup, checkKeys_fieldData]
  rfl

/-! ## Records that are written as lists -/

/-- Values as the fields of a record that have the names in turn. -/
def keyed (names : List String) (items : List Datum) : List (Datum × Datum) :=
  (names.zip items).map fun (name, v) => (.ofPlain (.constant (.text name)), v)

theorem nameFields_keyed (known : List String) {names : List String} {items : List Datum}
    (h : items.length ≤ names.length) :
    Reader.nameFields known (keyed names items) = Reader.placeFields names items := by
  refine List.ext_getElem ?_ fun i hi hi' => ?_
  · simp [Reader.nameFields, keyed, Reader.placeFields, h]
  · have hname : i < names.length := by
      simp only [Reader.placeFields, List.length_map, List.length_zipIdx] at hi'
      omega
    simp [Reader.nameFields, keyed, Reader.placeFields, hname, Datum.label?, Datum.ofPlain,
      Scalar.label?, Scalar.ofPlain, Label.resolve?]

theorem checkKeys_keyed (names : List String) (items : List Datum) :
    Reader.checkKeys (keyed names items) = .ok () := by
  refine checkKeys_eq_ok fun f hf => ?_
  obtain ⟨p, -, rfl⟩ := List.mem_map.mp hf
  rfl

/-- A list is read exactly if it has no more items than the record has fields and the record
is read whose fields have the names in turn. -/
theorem fields_list_eq_ok_iff {parts : FieldReader α} {items : List Datum} {a : α} :
    Reader.fields parts (.list items) = .ok a ↔ items.length ≤ parts.names.length
      ∧ Reader.fields parts (.record none (keyed parts.names items)) = .ok a := by
  rw [Reader.fields, Reader.fields, checkKeys_keyed, Reader.checkLength]
  by_cases h : items.length ≤ parts.names.length
  · rw [nameFields_keyed parts.names h, if_pos h, and_iff_right h]
  · refine iff_of_false ?_ fun hread => h hread.1
    rw [Reader.allFields, if_neg h]
    cases parts.read (Reader.placeFields parts.names items) with
    | ok b => exact nofun
    | error e => exact nofun

/-! ## Optional fields -/

@[simp] theorem lookup_optionalField (name k : String) (o : Option Json) :
    (Json.optionalField name o).lookup k = if k = name then o else none := by
  cases o with
  | none => simp [Json.optionalField]
  | some v =>
      by_cases h : k = name
      · simp [Json.optionalField, h]
      · simp [Json.optionalField, h]

theorem names_optionalField (name : String) (o : Option Json) :
    ((Json.optionalField name o).map (·.1)).Sublist [name] := by
  cases o with
  | none => exact List.nil_sublist _
  | some v => exact List.Sublist.refl _

theorem listField_eq (name : String) (items : List Json) :
    Json.listField name items = Json.optionalField name (Json.filled? items) := by
  cases items <;> rfl

end Schema

end ApiBaseline
