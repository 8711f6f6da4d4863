import ApiBaseline.Json.Basic
import ApiBaseline.Schema.Datum

/-!
# JSON values as data

A JSON value says what it is: a text is read as a text only, a flag as a flag.
A number that no constant stands for, what is broken, and what is nested too
deeply can be skipped but not read.
-/

namespace ApiBaseline.Json

/-- How many arrays and objects may contain each other. -/
def depthLimit : Nat := 127

/-- The named value that an object is: its one field is null. -/
def choice? : List (String × Json) → Option Label
  | [(k, null)] => some (.name k)
  | _ => none

mutual

/-- The datum of a value, with at most `levels` levels that can be read. -/
def toDatum (levels : Nat) : Json → Datum
  | null => .ofPlain .null
  | boolean b => .ofPlain (.constant (.boolean b))
  | number n =>
    match n.constant? with
    | some c => .ofPlain (.constant c)
    | none => .unreadable
  | text s => .ofPlain (.constant (.text s))
  | array items => if levels = 0 then .unreadable else .list (itemData (levels - 1) items)
  | object fields =>
    if levels = 0 then .unreadable
    else .record (choice? fields) (fieldData (levels - 1) fields)
  | broken => .unreadable
  | brokenObject fields =>
    if levels = 0 then .unreadable
    else .record none (fieldData (levels - 1) fields ++ [(.unreadable, .unreadable)])

def itemData (levels : Nat) : List Json → List Datum
  | [] => []
  | v :: vs => v.toDatum levels :: itemData levels vs

def fieldData (levels : Nat) : List (String × Json) → List (Datum × Datum)
  | [] => []
  | (k, v) :: fs => (.ofPlain (.constant (.text k)), v.toDatum levels) :: fieldData levels fs

end

/-- The datum of a whole text's value. -/
def datum (v : Json) : Datum := v.toDatum depthLimit

end ApiBaseline.Json
