import ApiBaseline.Json.Basic
import ApiBaseline.Named

/-!
# Parts of written records

The fields of a written record form one list. A field that may be left out
contributes a list of its own, which is then empty.
-/

namespace ApiBaseline.Json

def ofNamed {α : Type} [Named α] (a : α) : Json := text (Named.name a)

/-- A field for a list, left out when there is nothing in it. -/
def listField (name : String) : List Json → List (String × Json)
  | [] => []
  | items => [(name, array items)]

/-- A field for a value that may be absent. -/
def optionalField (name : String) : Option Json → List (String × Json)
  | none => []
  | some v => [(name, v)]

end ApiBaseline.Json
