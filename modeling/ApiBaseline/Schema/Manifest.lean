import ApiBaseline.Metadata.Module
import ApiBaseline.Schema.Reader
import ApiBaseline.Schema.Writer
import ApiBaseline.TypeRef.Printer

/-!
# Manifests as data

How each part of a manifest is written: its fields in their order, and which of
them may be left out. Each part has a reader and a normal form in JSON, in which
lists without elements and absent values are left out and everything else is
written.

A member says by the field `kind` what it is. It may stand anywhere among the
others, so they are settled before they are read. In a member that is written
as a list the kind stands first.
-/

namespace ApiBaseline

namespace Json

/-- A type reference in its display form. -/
def ofReference (t : TypeRef) : Json := text t.display

end Json

/-! ## Constants -/

/-- The numeral of a double that is not negative. -/
def Json.Numeral.ofMagnitude (x : Decimal.Binary64) : Json.Numeral :=
  if x.mantissa = 0 then ⟨false, 0, [⟨0, by decide⟩], none⟩
  else
    let d := x.shortest
    ⟨false, d.value, [], some (d.point - (Decimal.digitCount d.value : Int))⟩

/-- A constant in JSON, which has no doubles that are not finite. -/
def Constant.toJson : Constant → Json
  | .boolean b => .boolean b
  | .signed n => .ofInt n.value
  | .unsigned n => .ofInt n.value
  | .real x =>
    if x.isFinite then .number { Json.Numeral.ofMagnitude x with negative := x.isNegative }
    else .null
  | .text s => .text s

namespace Schema

open Reader (reference choice)

/-- The way in which constants are written. -/
abbrev ConstantWriter := Constant → Json

/-! ## Generic parameters -/

def readGenericParam : Reader GenericParam :=
  Reader.record <|
    GenericParam.mk <$> .required "name" Reader.text
      <*> .optional "base_type" reference
      <*> .list "interfaces" reference
      <*> .flag "default_constructor"
      <*> .flag "reference_type"
      <*> .flag "value_type"

def writeGenericParam (p : GenericParam) : Json :=
  .object <|
    [("name", .text p.name)]
      ++ Json.optionalField "base_type" (p.baseType.map Json.ofReference)
      ++ Json.listField "interfaces" (p.interfaces.map Json.ofReference)
      ++ [("default_constructor", .boolean p.defaultConstructor),
          ("reference_type", .boolean p.referenceType),
          ("value_type", .boolean p.valueType)]

/-! ## Parameters, slots, methods, fields -/

def readParameter : Reader Parameter :=
  Reader.record <|
    Parameter.mk <$> .required "name" Reader.text
      <*> .required "type" reference
      <*> .flag "is_in"
      <*> .flag "is_out"
      <*> .flag "is_optional"
      <*> .flag "has_default"
      <*> .optional "default" Reader.constant
      <*> .list "attributes" Reader.text

def writeParameter (constant : ConstantWriter) (p : Parameter) : Json :=
  .object <|
    [("name", .text p.name), ("type", .ofReference p.type), ("is_in", .boolean p.isIn),
      ("is_out", .boolean p.isOut), ("is_optional", .boolean p.isOptional),
      ("has_default", .boolean p.hasDefault)]
      ++ Json.optionalField "default" (p.default.map constant)
      ++ Json.listField "attributes" (p.attributes.map .text)

/-- Reads a row that names a slot. -/
def readSlotRow : Reader SlotRow :=
  Reader.record <|
    SlotRow.mk <$> .required "interface" reference <*> .required "method" Reader.text

/-- Writes a row that names a slot. -/
def writeSlotRow (r : SlotRow) : Json :=
  .object [("interface", .ofReference r.interface), ("method", .text r.method)]

/-- The type that a method returns when it does not say so. -/
def defaultReturnType : TypeRef := .named "System.Void" []

def readMethod : Reader Method :=
  Reader.record <|
    Method.mk <$> .required "name" Reader.text
      <*> .withDefault "access" (choice MemberAccess) .private
      <*> .flag "is_static"
      <*> .flag "is_final"
      <*> .flag "is_virtual"
      <*> .flag "is_new_slot"
      <*> .flag "is_abstract"
      <*> .withDefault "hide_by_sig" Reader.flag true
      <*> .withDefault "return_type" reference defaultReturnType
      <*> .list "params" readParameter
      <*> .list "generic_params" readGenericParam
      <*> .list "attributes" Reader.text
      <*> .list "overrides" readSlotRow

/-- The written fields of a method or constructor. -/
def writeMethodFields (constant : ConstantWriter) (m : Method) : List (String × Json) :=
  [("name", .text m.name), ("access", .ofNamed m.access), ("is_static", .boolean m.isStatic),
    ("is_final", .boolean m.isFinal), ("is_virtual", .boolean m.isVirtual),
    ("is_new_slot", .boolean m.isNewSlot), ("is_abstract", .boolean m.isAbstract),
    ("hide_by_sig", .boolean m.hideBySig), ("return_type", .ofReference m.returnType)]
    ++ Json.listField "params" (m.params.map (writeParameter constant))
    ++ Json.listField "generic_params" (m.genericParams.map writeGenericParam)
    ++ Json.listField "attributes" (m.attributes.map .text)
    ++ Json.listField "overrides" (m.overrides.map writeSlotRow)

def readField : Reader Field :=
  Reader.record <|
    Field.mk <$> .required "name" Reader.text
      <*> .withDefault "access" (choice MemberAccess) .private
      <*> .required "type" reference
      <*> .flag "is_static"
      <*> .flag "is_literal"
      <*> .flag "is_init_only"

def writeFieldFields (f : Field) : List (String × Json) :=
  [("name", .text f.name), ("access", .ofNamed f.access), ("type", .ofReference f.type),
    ("is_static", .boolean f.isStatic), ("is_literal", .boolean f.isLiteral),
    ("is_init_only", .boolean f.isInitOnly)]

/-! ## Members -/

/-- Reads a member of which nothing but the name matters. -/
def readNameOnly : Reader String :=
  Reader.record (.required "name" Reader.text)

/-- A member with its kind taken out: the kinds that it names, and its other
fields, settled. -/
structure KindedFields where
  kinds : List String
  fields : List (Datum × Datum)

/-- Takes the kind out of the fields of a member. -/
def takeKind : List (Datum × Datum) → Except Fault KindedFields
  | [] => .ok ⟨[], []⟩
  | (k, v) :: fs => do
    let key ← Reader.demand k.settle?
    if key.label? = some (.name "kind") then
      let kind ← Reader.text v
      let rest ← takeKind fs
      return { rest with kinds := kind :: rest.kinds }
    else
      let value ← Reader.demand v.settle?
      let rest ← takeKind fs
      return { rest with fields := (key, value) :: rest.fields }

/-- Reads a member of a kind that is not known. Its fields are ignored, but a list
has no items besides the kind. -/
def readUnsupported : Datum → Except Fault Member
  | .list (_ :: _) => .error .malformed
  | _ => .ok .unsupported

def readMemberOf (kind : String) (fields : Datum) : Except Fault Member :=
  match kind with
  | "constructor" => (readMethod fields).map .constructor
  | "method" => (readMethod fields).map .method
  | "field" => (readField fields).map .field
  | "property" => (readNameOnly fields).map .property
  | "event" => (readNameOnly fields).map .event
  | "nested_type" => (readNameOnly fields).map .nestedType
  | _ => readUnsupported fields

def readMember : Reader Member where
  outline := .everything
  read
    | .record _ fields => do
      let taken ← takeKind fields
      match taken.kinds with
      | [kind] => readMemberOf kind (.record none taken.fields)
      | _ => .error .malformed
    | .list (v :: items) => do
      let kind ← Reader.text v
      let settled ← Reader.demand (Datum.settleAll? items)
      readMemberOf kind (.list settled)
    | _ => .error .malformed

/-- An object with a kind in front of its fields. -/
def kinded (kind : String) (fields : List (String × Json)) : Json :=
  .object (("kind", .text kind) :: fields)

def writeMember (constant : ConstantWriter) : Member → Json
  | .constructor m => kinded "constructor" (writeMethodFields constant m)
  | .method m => kinded "method" (writeMethodFields constant m)
  | .field f => kinded "field" (writeFieldFields f)
  | .property name => kinded "property" [("name", .text name)]
  | .event name => kinded "event" [("name", .text name)]
  | .nestedType name => kinded "nested_type" [("name", .text name)]
  | .unsupported => kinded "unsupported" []

/-! ## Definitions and manifests -/

def readDefinition : Reader Definition :=
  Reader.record <|
    Definition.mk <$> .required "name" Reader.text
      <*> .withDefault "access" (choice TypeAccess) .notPublic
      <*> .flag "is_interface"
      <*> .flag "is_value_type"
      <*> .flag "is_abstract"
      <*> .flag "is_sealed"
      <*> .optional "base" reference
      <*> .list "interfaces" reference
      <*> .list "generic_params" readGenericParam
      <*> .list "members" readMember

def writeDefinition (constant : ConstantWriter) (d : Definition) : Json :=
  .object <|
    [("name", .text d.name), ("access", .ofNamed d.access),
      ("is_interface", .boolean d.isInterface), ("is_value_type", .boolean d.isValueType),
      ("is_abstract", .boolean d.isAbstract), ("is_sealed", .boolean d.isSealed)]
      ++ Json.optionalField "base" (d.base.map Json.ofReference)
      ++ Json.listField "interfaces" (d.interfaces.map Json.ofReference)
      ++ Json.listField "generic_params" (d.genericParams.map writeGenericParam)
      ++ Json.listField "members" (d.members.map (writeMember constant))

def readManifest : Reader Manifest :=
  Reader.record <|
    Manifest.mk <$> .required "identity" Reader.text
      <*> .list "types" readDefinition
      <*> .list "references" readDefinition
      <*> .list "value_types" Reader.text

def writeManifest (constant : ConstantWriter) (m : Manifest) : Json :=
  .object <|
    [("identity", .text m.identity),
      ("types", .array (m.types.map (writeDefinition constant)))]
      ++ Json.listField "references" (m.references.map (writeDefinition constant))
      ++ Json.listField "value_types" (m.valueTypes.map .text)

end Schema

end ApiBaseline
