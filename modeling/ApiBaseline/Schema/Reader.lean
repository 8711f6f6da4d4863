import ApiBaseline.Named
import ApiBaseline.Schema.Outline
import ApiBaseline.TypeRef.Parser

/-!
# Reading data

Readers turn a datum into a value or a fault, and say in an outline which parts
of it they look at. A record is read field by field: each part of the result
asks for the field that it comes from, and of several faults the one that
stands first in the text is reported. A missing field is a fault at the end of
the record. Fields that nobody asks for are ignored.

A record may also be a list, whose items are the values of the fields in the
order in which the record knows them. Fields are missing at its end only. A
format that does not write records like that gives no such list to a reader.
-/

namespace ApiBaseline.Schema

/-- Why a datum cannot be read. -/
inductive Fault where
  /-- It does not have the shape that is asked for. -/
  | malformed
  /-- A type reference in it cannot be read. -/
  | reference (error : TypeRef.ParseError)
  deriving DecidableEq, Repr

def Fault.message? : Fault → Option String
  | malformed => none
  | reference e => e.message?

/-- The program ends where the fault occurs, without a report. -/
def Fault.isCrash : Fault → Bool
  | reference (.splitCharacter _) => true
  | _ => false

/-- A way to read a datum. -/
structure Reader (α : Type) where
  /-- The parts of the datum that are read. -/
  outline : Outline
  /-- The value that the datum is read as. -/
  read : Datum → Except Fault α

namespace Reader

variable {α : Type}

/-- A reader is applied like the function in it. -/
instance : CoeFun (Reader α) (fun _ => Datum → Except Fault α) := ⟨Reader.read⟩

/-- A value that has to be there. -/
def demand : Option α → Except Fault α
  | some a => .ok a
  | none => .error .malformed

def text : Reader String where
  outline := .scalar
  read
    | .scalar s => demand s.text?
    | _ => .error .malformed

def flag : Reader Bool where
  outline := .scalar
  read
    | .scalar s => demand s.flag?
    | _ => .error .malformed

/-- The label of one of several named values. -/
def label : Datum → Except Fault Label
  | .scalar s => demand s.choice?
  | .record choice? _ => demand choice?
  | _ => .error .malformed

/-- One of several named values. -/
def choice (α : Type) [Named α] : Reader α where
  outline := .scalar
  read v := do
    let l ← label v
    demand ((l.resolve? (Named.names α)).bind Named.ofName?)

/-- A type reference, written as a text. -/
def reference : Reader TypeRef where
  outline := .scalar
  read v := do
    let s ← text v
    match TypeRef.parse s with
    | .ok t => .ok t
    | .error e => .error (.reference e)

def constant : Reader Constant where
  outline := .scalar
  read
    | .scalar s =>
      match s.plain? with
      | some (.constant c) => .ok c
      | _ => .error .malformed
    | _ => .error .malformed

/-- A value that may be absent. -/
def optional (present : Reader α) : Reader (Option α) where
  outline := present.outline
  read
    | .scalar s =>
      match s.absent? with
      | some true => .ok none
      | some false => (present (.scalar s)).map some
      | none => .error .malformed
    | v => (present v).map some

/-- Every element of a list. -/
def each (item : Reader α) : List Datum → Except Fault (List α)
  | [] => .ok []
  | v :: vs => do
    let a ← item v
    let as ← each item vs
    return a :: as

def items (item : Reader α) : Datum → Except Fault (List α)
  | .list vs => each item vs
  | .marked v => items item v
  | .scalar s => if s.isEmpty then .ok [] else .error .malformed
  | _ => .error .malformed

def list (item : Reader α) : Reader (List α) where
  outline := .list item.outline
  read := items item

end Reader

/-! ## Records -/

/-- The fields of a record in the order of the text. A field without a name
is ignored. -/
abbrev Fields := List (Option String × Datum)

/-- A fault and the position of the field that it occurs in. -/
abbrev PlacedFault := Nat × Fault

/-- A way to read a part of a result from the fields of a record. -/
structure FieldReader (α : Type) where
  /-- The fields that are read, in the order in which the parts are given. -/
  fields : List (String × Outline)
  /-- The part that the fields of a record are read as. -/
  read : Fields → Except PlacedFault α

namespace FieldReader

variable {α β : Type}

/-- The names of the fields that are read. -/
def names (parts : FieldReader α) : List String := parts.fields.map (·.1)

/-- Two parts put together; the fault that stands first is reported. -/
def combine (f : Except PlacedFault (α → β)) (x : Except PlacedFault α) :
    Except PlacedFault β :=
  match f, x with
  | .ok g, .ok a => .ok (g a)
  | .error e, .ok _ => .error e
  | .ok _, .error e => .error e
  | .error e, .error e' => .error (if e'.1 < e.1 then e' else e)

instance : Applicative FieldReader where
  pure a := ⟨[], fun _ => .ok a⟩
  seq f x := ⟨f.fields ++ (x ()).fields, fun fs => combine (f.read fs) ((x ()).read fs)⟩

/-- The fields with a name, each with its position. -/
def occurrences (name : String) (fields : Fields) : List (Nat × Datum) :=
  fields.zipIdx.filterMap fun ((n, v), i) => if n = some name then some (i, v) else none

/-- The value of a field, if it is there; it must not be repeated. -/
def find? (name : String) (value : Reader α) (fields : Fields) :
    Except PlacedFault (Option α) :=
  match occurrences name fields with
  | [] => .ok none
  | (i, v) :: repeated =>
    match value v, repeated with
    | .error fault, _ => .error (i, fault)
    | .ok a, [] => .ok (some a)
    | .ok _, (j, _) :: _ => .error (j, .malformed)

/-- A field that has to be there. -/
def required (name : String) (value : Reader α) : FieldReader α where
  fields := [(name, value.outline)]
  read fields :=
    match find? name value fields with
    | .ok (some a) => .ok a
    | .ok none => .error (fields.length, .malformed)
    | .error e => .error e

/-- A field that has a value even if it is left out. -/
def withDefault (name : String) (value : Reader α) (standard : α) : FieldReader α where
  fields := [(name, value.outline)]
  read fields := (find? name value fields).map (·.getD standard)

/-- A flag that is down when it is left out. -/
def flag (name : String) : FieldReader Bool := withDefault name Reader.flag false

/-- A list that is empty when it is left out. -/
def list (name : String) (item : Reader α) : FieldReader (List α) :=
  withDefault name (Reader.list item) []

/-- A value that is absent when it is left out. -/
def optional (name : String) (present : Reader α) : FieldReader (Option α) :=
  withDefault name (Reader.optional present) none

end FieldReader

namespace Reader

variable {α : Type}

/-- The fields of a record under their names. A numbered field has its name from
the ones that the record knows. -/
def nameFields (names : List String) (fields : List (Datum × Datum)) : Fields :=
  fields.map fun (k, v) => (k.label?.bind (·.resolve? names), v)

/-- Every key is a label, whether its field is asked for or not. -/
def checkKeys (fields : List (Datum × Datum)) : Except PlacedFault Unit :=
  match fields.findIdx? (·.1.label?.isNone) with
  | some i => .error (i, .malformed)
  | none => .ok ()

/-- The fields of a record that is written as a list: the items take the names
in turn. -/
def placeFields (names : List String) (items : List Datum) : Fields :=
  items.zipIdx.map fun (v, i) => (names[i]?, v)

/-- There is a name for every item. -/
def checkLength (names : List String) (items : List Datum) : Except PlacedFault Unit :=
  if items.length ≤ names.length then .ok () else .error (names.length, .malformed)

/-- The result of a record's fields, if the record passes a check. The first
fault is reported without its place. -/
def allFields (parts : FieldReader α) (fields : Fields) (check : Except PlacedFault Unit) :
    Except Fault α :=
  match FieldReader.combine ((parts.read fields).map fun a () => a) check with
  | .ok a => .ok a
  | .error (_, fault) => .error fault

def fields (parts : FieldReader α) : Datum → Except Fault α
  | .record _ fs => allFields parts (nameFields parts.names fs) (checkKeys fs)
  | .list items => allFields parts (placeFields parts.names items) (checkLength parts.names items)
  | .marked v => fields parts v
  | .scalar s => if s.isEmpty then allFields parts [] (.ok ()) else .error .malformed
  | .unreadable => .error .malformed

/-- A record that is read from its fields. -/
def record (parts : FieldReader α) : Reader α where
  outline := .record parts.fields
  read := fields parts

end Reader

end ApiBaseline.Schema
