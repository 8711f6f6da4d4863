import ApiBaseline.Schema.Datum

/-!
# What is read of a value

Who reads a value looks at some of its parts and skips the others. The outline
of a reader says which parts these are. It does not depend on the value, so
that what is skipped need not be worked out.
-/

namespace ApiBaseline

/-- The parts of a value that are read. -/
inductive Outline where
  /-- The value is skipped. -/
  | nothing
  /-- A value without parts. -/
  | scalar
  /-- A list, and the same of all its items. -/
  | list (items : Outline)
  /-- A record, and its fields with these names. -/
  | record (fields : List (String × Outline))
  /-- A value of any kind with all its parts. -/
  | everything

namespace Outline

/-- What is read of the items of a list, if a list is read. -/
def items? : Outline → Option Outline
  | list items => some items
  | everything => some everything
  | _ => none

/-- What is read of the name of a field, if a record is read. -/
def label? : Outline → Option Outline
  | record _ => some scalar
  | everything => some everything
  | _ => none

/-- What is read of the field with a label. -/
def field : Outline → Option Label → Outline
  | record fields, some label =>
    ((label.resolve? (fields.map (·.1))).bind (fields.lookup ·)).getD nothing
  | everything, _ => everything
  | _, _ => nothing

end Outline

end ApiBaseline
