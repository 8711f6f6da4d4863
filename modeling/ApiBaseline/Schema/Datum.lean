import ApiBaseline.Constant

/-!
# Data before their meaning is known

Manifests, settings and documents are read from texts of two formats. The
value of such a text is turned into a datum first, which says of each value
what it may be read as when a text, a flag or an optional value is asked for,
and what it is read as when nothing in particular is asked for. One set of
readers then serves both formats.

The formats differ in how much they let the reader decide: a YAML scalar may
be read as a text, whatever it looks like. Where the shape of a value has to
be known before it is read, the datum is settled: each scalar becomes what it
is by itself, and is no longer read as anything else.
-/

namespace ApiBaseline

/-- What a scalar is by itself. -/
inductive Plain where
  | null
  | constant (value : Constant)
  deriving DecidableEq, Repr

/-- What names one of several fields or values: its name, or its position
among them. -/
inductive Label where
  | name (text : String)
  | index (position : Nat)
  deriving DecidableEq, Repr

def Label.resolve? (names : List String) : Label → Option String
  | name s => some s
  | index i => names[i]?

/-- A value without parts, as what it may be read as. -/
structure Scalar where
  /-- Read as a text. -/
  text? : Option String
  /-- Read as a flag. -/
  flag? : Option Bool
  /-- Read as one of several named values. -/
  choice? : Option Label
  /-- Whether it stands for an absent optional value, if that can be said. -/
  absent? : Option Bool
  /-- It may be read as an empty list or record. -/
  isEmpty : Bool
  /-- What it is by itself. -/
  plain? : Option Plain
  deriving DecidableEq, Repr

/-- A scalar that is read only as what it is by itself. -/
def Scalar.ofPlain : Plain → Scalar
  | .null => ⟨none, none, none, some true, false, some .null⟩
  | .constant (.text s) =>
    ⟨some s, none, some (.name s), some false, false, some (.constant (.text s))⟩
  | .constant (.boolean b) =>
    ⟨none, some b, none, some false, false, some (.constant (.boolean b))⟩
  | .constant c => ⟨none, none, none, some false, false, some (.constant c)⟩

/-- The label that a scalar is when it stands in the place of a field's name. -/
def Scalar.label? (s : Scalar) : Option Label :=
  match s.text?, s.plain? with
  | some text, _ => some (.name text)
  | none, some (.constant (.signed n)) =>
    if 0 ≤ n.value then some (.index n.value.toNat) else none
  | none, some (.constant (.unsigned n)) => some (.index n.value.toNat)
  | none, _ => none

/-- A value of a text, before its meaning is known. -/
inductive Datum where
  | scalar (value : Scalar)
  | list (items : List Datum)
  /-- A record has fields with names, in the order of the text. It may also be
  a way to write one of several named values. -/
  | record (choice? : Option Label) (fields : List (Datum × Datum))
  /-- A list or record that is not read unless it is asked for as such. -/
  | marked (value : Datum)
  /-- A value that can be skipped but not read. -/
  | unreadable
  deriving Inhabited

namespace Datum

/-- A scalar that is read only as what it is by itself. -/
def ofPlain (p : Plain) : Datum := scalar (Scalar.ofPlain p)

/-- The label in the place of a field's name. -/
def label? : Datum → Option Label
  | scalar s => s.label?
  | _ => none

/-- The value is null, by itself. -/
def isNull : Datum → Bool
  | scalar s => s.plain? == some .null
  | _ => false

/-- The value is null or a record without fields. -/
def isNothing : Datum → Bool
  | record _ [] => true
  | v => v.isNull

/-- The named value that a settled record is: its one field has nothing in
it. -/
def settledChoice? : List (Datum × Datum) → Option Label
  | [(k, v)] => if v.isNothing then k.label? else none
  | _ => none

mutual

/-- The datum with every scalar in it read as what it is by itself. -/
def settle? : Datum → Option Datum
  | scalar s => s.plain?.map ofPlain
  | list items => (settleAll? items).map list
  | record _ fields => (settleFields? fields).map fun fs => record (settledChoice? fs) fs
  | marked _ => none
  | unreadable => none

def settleAll? : List Datum → Option (List Datum)
  | [] => some []
  | v :: vs => do
    let v' ← v.settle?
    let vs' ← settleAll? vs
    return v' :: vs'

/-- All names and values of fields settled. -/
def settleFields? : List (Datum × Datum) → Option (List (Datum × Datum))
  | [] => some []
  | (k, v) :: fs => do
    let k' ← k.settle?
    let v' ← v.settle?
    let fs' ← settleFields? fs
    return (k', v') :: fs'

end

end Datum

end ApiBaseline
