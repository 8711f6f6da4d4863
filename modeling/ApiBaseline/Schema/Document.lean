import ApiBaseline.Json.Writer
import ApiBaseline.Record.Basic
import ApiBaseline.Schema.Text
import ApiBaseline.Schema.Writer

/-!
# Documents as data

How the records of a document are written in JSON. An absent value is left
out; flags and lists are always written, but a reader does without them. A
document is kept as a text over several lines, so that two of them can also be
compared line by line.
-/

namespace ApiBaseline.Schema

open Reader (choice)

/-! ## Parameters and constraints -/

def readParameterRecord : Reader ParameterRecord :=
  Reader.record <|
    ParameterRecord.mk <$> .required "name" Reader.text
      <*> .required "type" Reader.text
      <*> .withDefault "direction" (choice Direction) .in
      <*> .optional "default_value" Reader.text
      <*> .flag "is_params"

def writeParameterRecord (p : ParameterRecord) : Json :=
  .object <|
    [("name", .text p.name), ("type", .text p.typeName),
      ("direction", .ofNamed p.direction)]
      ++ Json.optionalField "default_value" (p.defaultValue.map .text)
      ++ [("is_params", .boolean p.isVariadic)]

def readConstraintRecord : Reader ConstraintRecord :=
  Reader.record <|
    ConstraintRecord.mk <$> .required "parameter_name" Reader.text
      <*> .list "base_type_or_interfaces" Reader.text
      <*> .flag "new"
      <*> .flag "class"
      <*> .flag "struct"

def writeConstraintRecord (c : ConstraintRecord) : Json :=
  .object
    [("parameter_name", .text c.parameterName),
      ("base_type_or_interfaces", .ofTexts c.bounds), ("new", .boolean c.hasConstructor),
      ("class", .boolean c.isReferenceType), ("struct", .boolean c.isValueType)]

/-! ## Members -/

def readMemberRecord : Reader MemberRecord :=
  Reader.record <|
    MemberRecord.mk <$> .required "kind" (choice MemberKind)
      <*> .required "name" Reader.text
      <*> .required "visibility" (choice Accessibility)
      <*> .flag "is_static"
      <*> .flag "is_sealed"
      <*> .flag "is_virtual"
      <*> .flag "is_override"
      <*> .flag "is_abstract"
      <*> .flag "is_new"
      <*> .flag "is_extension"
      <*> .flag "is_const"
      <*> .flag "is_readonly"
      <*> .optional "return_type" Reader.text
      <*> .list "parameters" readParameterRecord
      <*> .list "generic_constraints" readConstraintRecord
      <*> .optional "explicit_interface" Reader.text
      <*> .optional "implemented_interface" Reader.text

def writeMemberRecord (m : MemberRecord) : Json :=
  .object <|
    [("kind", .ofNamed m.kind), ("name", .text m.name),
      ("visibility", .ofNamed m.visibility), ("is_static", .boolean m.isStatic),
      ("is_sealed", .boolean m.isSealed), ("is_virtual", .boolean m.isVirtual),
      ("is_override", .boolean m.isOverride), ("is_abstract", .boolean m.isAbstract),
      ("is_new", .boolean m.isNew), ("is_extension", .boolean m.isExtension),
      ("is_const", .boolean m.isConst), ("is_readonly", .boolean m.isReadonly)]
      ++ Json.optionalField "return_type" (m.returnType.map .text)
      ++ [("parameters", .array (m.parameters.map writeParameterRecord)),
          ("generic_constraints", .array (m.constraints.map writeConstraintRecord))]
      ++ Json.optionalField "explicit_interface" (m.explicitInterface.map .text)
      ++ Json.optionalField "implemented_interface" (m.implementedInterface.map .text)

/-! ## Types -/

def readTypeRecord : Reader TypeRecord :=
  Reader.record <|
    TypeRecord.mk <$> .required "name" Reader.text
      <*> .required "kind" (choice TypeKind)
      <*> .required "visibility" (choice Accessibility)
      <*> .flag "is_static"
      <*> .flag "is_abstract"
      <*> .flag "is_sealed"
      <*> .optional "base_type" Reader.text
      <*> .list "implemented_interfaces" Reader.text
      <*> .list "generic_constraints" readConstraintRecord
      <*> .list "members" readMemberRecord

def writeTypeRecord (t : TypeRecord) : Json :=
  .object <|
    [("name", .text t.name), ("kind", .ofNamed t.kind),
      ("visibility", .ofNamed t.visibility), ("is_static", .boolean t.isStatic),
      ("is_abstract", .boolean t.isAbstract), ("is_sealed", .boolean t.isSealed)]
      ++ Json.optionalField "base_type" (t.baseType.map .text)
      ++ [("implemented_interfaces", .ofTexts t.interfaces),
          ("generic_constraints", .array (t.constraints.map writeConstraintRecord)),
          ("members", .array (t.members.map writeMemberRecord))]

/-! ## Documents -/

def readDocument : Reader Document :=
  Reader.record <|
    Document.mk <$> .required "assembly_identity" Reader.text
      <*> .required "types" (Reader.list readTypeRecord)

def writeDocument (d : Document) : Json :=
  .object
    [("assembly_identity", .text d.identity), ("types", .array (d.types.map writeTypeRecord))]

end ApiBaseline.Schema

namespace ApiBaseline.Document

/-- The text that a document is kept as. -/
def toText (d : Document) : String := (Schema.writeDocument d).pretty

/-- The document that a text is kept for. -/
def ofText (s : String) : Except Schema.Fault Document :=
  Schema.readText .json Schema.readDocument s

end ApiBaseline.Document
