/-!
# What a document cannot describe

A construct without a record aborts the whole document: one that left it out
could not be told apart from the document of a module without it.
-/

namespace ApiBaseline

/-- Why a type has no record. -/
inductive ClassifyError where
  /-- A member of a kind that no record describes. -/
  | unsupportedMember (typeName : String) (position : Nat)
  /-- A default whose declared type has no literals. -/
  | unsupportedDefault (member parameter typeName : String)
  deriving DecidableEq, Repr

def ClassifyError.message : ClassifyError → String
  | unsupportedMember typeName position =>
    s!"unsupported member kind at index {position} of type {typeName}"
  | unsupportedDefault member parameter typeName =>
    s!"unsupported default value type {typeName} for parameter {parameter} of {member}"

end ApiBaseline
