/-!
# Enumerated values with names

Manifests and documents write an enumerated value by a name in lower case with
underscores. A type of such values lists them all, each with its name.
-/

namespace ApiBaseline

/-- A type of enumerated values that are written by name. -/
class Named (α : Type) where
  /-- Every value, once. -/
  all : List α
  /-- The written name. -/
  name : α → String

namespace Named

variable {α : Type} [Named α]

def names (α : Type) [Named α] : List String := (all : List α).map name

def ofName? (s : String) : Option α := (all : List α).find? (name · == s)

end Named

end ApiBaseline
