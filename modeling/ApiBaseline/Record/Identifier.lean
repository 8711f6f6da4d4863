import ApiBaseline.Record.Basic

/-!
# Identifiers

Records of two documents are matched by identifier: a declaration in one line
with its keywords in a fixed order. Two records with the same identifier count
as the same type or member; any change that a user could notice changes it.
-/

namespace ApiBaseline

/-- Words that stand in an identifier under a condition. -/
def wordsWhen (rows : List (Bool × String)) : List String :=
  (rows.filter (·.1)).map (·.2)

/-- The clause of one constrained parameter. A value type always has a
constructor without parameters, so that constraint is not repeated. -/
def ConstraintRecord.clause (c : ConstraintRecord) : String :=
  let parts := c.bounds ++ wordsWhen
    [(c.isReferenceType, "class"), (c.isValueType, "struct"),
     (c.hasConstructor && !c.isValueType, "new()")]
  " where " ++ c.parameterName ++ " : " ++ ", ".intercalate parts

def constraintClause (constraints : List ConstraintRecord) : String :=
  String.join (constraints.map (·.clause))

/-- The word before a parameter that says how it is passed. -/
def Direction.keyword : Direction → String
  | .in => ""
  | .ref => "ref "
  | .out => "out "

/-- A parameter in a list: `ref System.Int32 count = 1`. -/
def ParameterRecord.declaration (p : ParameterRecord) : String :=
  let initial := match p.defaultValue with
    | some literal => " = " ++ literal
    | none => ""
  (if p.isVariadic then "params " else "") ++ p.direction.keyword ++ p.typeName ++ " "
    ++ p.name ++ initial

namespace MemberRecord

/-- The parameters in order; the first one of an extension method is marked. -/
def parameterList (m : MemberRecord) : String :=
  let declarations := m.parameters.map (·.declaration)
  let marked := match m.isExtension, declarations with
    | true, first :: rest => ("this " ++ first) :: rest
    | _, all => all
  ", ".intercalate marked

/-- The text of the return or field type, empty if there is none. -/
def typeText (m : MemberRecord) : String := m.returnType.getD ""

/-- The words before a constructor's name. -/
def constructorWords (m : MemberRecord) : List String :=
  m.visibility.keyword :: wordsWhen [(m.isStatic, "static")]

/-- The words before a field's name. A constant is static without saying so. -/
def fieldWords (m : MemberRecord) : List String :=
  m.visibility.keyword ::
    (if m.isConst then ["const"]
     else wordsWhen [(m.isStatic, "static"), (m.isReadonly, "readonly")])
    ++ [m.typeText]

/-- The words that say how a method takes part in overriding. -/
def overrideWords (m : MemberRecord) : List String :=
  if m.isOverride then
    wordsWhen [(m.isSealed, "sealed"), (m.isAbstract, "abstract"), (true, "override")]
  else if m.isAbstract then ["abstract"]
  else wordsWhen [(m.isVirtual && !m.isSealed, "virtual")]

/-- The words before a method's name. An explicit implementation can be called
through its interface only and has none but its return type. -/
def methodWords (m : MemberRecord) : List String :=
  (if m.explicitInterface.isSome then []
   else m.visibility.keyword :: wordsWhen [(m.isNew, "new"), (m.isStatic, "static")]
     ++ m.overrideWords)
    ++ [m.typeText]

def id (m : MemberRecord) : String :=
  match m.kind with
  | .constructor =>
    " ".intercalate m.constructorWords ++ " " ++ m.name ++ "(" ++ m.parameterList ++ ")"
  | .field => " ".intercalate m.fieldWords ++ " " ++ m.name
  | .method =>
    " ".intercalate m.methodWords ++ " " ++ m.name ++ "(" ++ m.parameterList ++ ")"
      ++ constraintClause m.constraints

end MemberRecord

namespace TypeRecord

/-- The words before a type's name. Only a class has modifiers, and a static
class is neither abstract nor sealed to its users. -/
def words (t : TypeRecord) : List String :=
  let modifiers :=
    if t.kind ≠ .class then []
    else if t.isStatic then ["static"]
    else wordsWhen [(t.isAbstract, "abstract"), (t.isSealed, "sealed")]
  t.visibility.keyword :: modifiers ++ [t.kind.keyword]

/-- The base type and the interfaces behind a colon, if there are any. -/
def supertypeClause (t : TypeRecord) : String :=
  match t.baseType.toList ++ t.interfaces with
  | [] => ""
  | supertypes => " : " ++ ", ".intercalate supertypes

def id (t : TypeRecord) : String :=
  " ".intercalate t.words ++ " " ++ t.name ++ t.supertypeClause
    ++ constraintClause t.constraints

/-- The first member with an identifier. -/
def findMember (t : TypeRecord) (id : String) : Option MemberRecord :=
  t.members.find? (·.id == id)

end TypeRecord

/-- The first type with an identifier. -/
def Document.findType (d : Document) (id : String) : Option TypeRecord :=
  d.types.find? (·.id == id)

end ApiBaseline
