import ApiBaseline.Classify.Error
import ApiBaseline.Metadata.Module
import ApiBaseline.Record.Basic

/-!
# Parameter records

A default is written as a literal of the parameter's declared type. A null
default is `null`, or `default(T)` for a value type; the constants of strings
and characters are quoted, those of booleans and numbers are plain, and no
other type has literals.
-/

namespace ApiBaseline

/-- The types whose constants are written plainly. -/
def plainLiteralTypes : List String :=
  ["System.Boolean", "System.Byte", "System.SByte", "System.Int16", "System.UInt16",
   "System.Int32", "System.UInt32", "System.Int64", "System.UInt64", "System.Double",
   "System.Single", "System.Decimal"]

/-- A constant as a literal of the type with a canonical name, if that type
has literals. -/
def Constant.literal? (c : Constant) (typeName : String) : Option String :=
  if typeName = "System.String" then some ("\"" ++ c.rawText ++ "\"")
  else if typeName = "System.Char" then some ("'" ++ c.rawText ++ "'")
  else if plainLiteralTypes.contains typeName then some c.rawText
  else none

namespace Module

/-- The default of a parameter as a literal, if it has one. `member` names the
method for an error. -/
def defaultLiteral (m : Module) (member : String) (p : Parameter) :
    Except ClassifyError (Option String) :=
  let typeName := p.type.canonicalName
  match p.hasDefault, p.default with
  | false, _ => .ok none
  | true, none =>
    .ok (some (if m.isValueType p.type then "default(" ++ typeName ++ ")" else "null"))
  | true, some c =>
    match c.literal? typeName with
    | some literal => .ok (some literal)
    | none => .error (.unsupportedDefault member p.name typeName)

end Module

/-- A by-ref parameter goes out if it is marked so, and both ways otherwise. -/
def Parameter.direction (p : Parameter) : Direction :=
  if p.type.isByRef then (if p.isOut then .out else .ref) else .in

/-- The record of a parameter. The direction stands for the by-ref mark. -/
def Module.parameterRecord (m : Module) (member : String) (p : Parameter) :
    Except ClassifyError ParameterRecord := do
  let literal ← m.defaultLiteral member p
  return {
    name := p.name
    typeName := p.type.withoutByRef.canonicalName
    direction := p.direction
    defaultValue := literal
    isVariadic := p.isVariadic }

end ApiBaseline
