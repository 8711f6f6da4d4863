import ApiBaseline.Record.Identifier

/-!
# Differences between documents

Two documents are compared by identifier: types first, and then the members of
types that both have. Every list of a difference follows the order of the
document that its entries come from.
-/

namespace ApiBaseline

/-- What changed among the members of one type. -/
structure TypeChange where
  /-- The identifier of the type. -/
  id : String
  /-- Identifiers of members that only the old type has. -/
  removed : List String
  /-- Identifiers of members that only the new type has. -/
  added : List String
  deriving DecidableEq, Repr

/-- What changed between an old and a new document. -/
structure Diff where
  /-- Identifiers of types that only the old document has. -/
  removedTypes : List String
  /-- Identifiers of types that only the new document has. -/
  addedTypes : List String
  /-- Types of both documents whose members differ. -/
  changedTypes : List TypeChange
  deriving DecidableEq, Repr

/-- The elements of a list that another one lacks. -/
def missingFrom (others xs : List String) : List String :=
  xs.filter (!others.contains ·)

def TypeRecord.memberIds (t : TypeRecord) : List String := t.members.map (·.id)

def Document.typeIds (d : Document) : List String := d.types.map (·.id)

/-- The change from an old to a new type, if their members differ. -/
def TypeRecord.changeTo? (old new : TypeRecord) : Option TypeChange :=
  let change : TypeChange :=
    { id := old.id
      removed := missingFrom new.memberIds old.memberIds
      added := missingFrom old.memberIds new.memberIds }
  if change.removed.isEmpty && change.added.isEmpty then none else some change

namespace Diff

/-- The difference of two documents. A type is compared with the first one of
the new document that has its identifier. -/
def compare (old new : Document) : Diff where
  removedTypes := missingFrom new.typeIds old.typeIds
  addedTypes := missingFrom old.typeIds new.typeIds
  changedTypes := old.types.filterMap fun t => (new.findType t.id).bind t.changeTo?

/-- Nothing changed. -/
def isEmpty (d : Diff) : Bool :=
  d.removedTypes.isEmpty && d.addedTypes.isEmpty && d.changedTypes.isEmpty

/-- Something was removed. A type whose identifier changed counts as removed:
who used it as it was can no longer do so. -/
def isBreaking (d : Diff) : Bool :=
  !d.removedTypes.isEmpty || d.changedTypes.any (!·.removed.isEmpty)

/-- A heading with its lines, or nothing if there are no lines. -/
def titled (heading : String) : List String → List String
  | [] => []
  | lines => heading :: lines

def removedLine (id : String) : String := "  - " ++ id

def addedLine (id : String) : String := "  + " ++ id

def lines (d : Diff) : List String :=
  titled "Removed types:" (d.removedTypes.map removedLine)
    ++ titled "Added types:" (d.addedTypes.map addedLine)
    ++ d.changedTypes.flatMap fun c =>
      ("Changed: " ++ c.id) :: c.removed.map removedLine ++ c.added.map addedLine

def report (d : Diff) : String :=
  if d.isEmpty then "No API changes." else "\n".intercalate d.lines

end Diff

end ApiBaseline
