import ApiBaseline.Json.Numeral

/-!
# JSON values

The value of a JSON text. An object is the list of its fields in the order of
the text; a name may occur twice, and who reads the object decides whether it
may. Numbers are kept as they are written, since only some of them have a
value. What can be skipped in a text but not read is kept as broken.
-/

namespace ApiBaseline

/-- A JSON value. -/
inductive Json where
  | null
  | boolean (value : Bool)
  | number (value : Json.Numeral)
  | text (value : String)
  | array (items : List Json)
  | object (fields : List (String × Json))
  /-- A text with half of a surrogate pair, or the place where a text breaks
  off. -/
  | broken
  /-- An object that cannot be read beyond some fields, since the name behind
  them is broken. -/
  | brokenObject (fields : List (String × Json))
  deriving Repr, Inhabited

namespace Json

/-- The number of an integer. -/
def ofInt (n : Int) : Json := number (Numeral.ofInt n)

def ofTexts (texts : List String) : Json := array (texts.map text)

mutual

/-- How many arrays and objects contain each other. -/
def depth : Json → Nat
  | array items => itemsDepth items + 1
  | object fields => fieldsDepth fields + 1
  | brokenObject fields => fieldsDepth fields + 1
  | _ => 0

def itemsDepth : List Json → Nat
  | [] => 0
  | v :: vs => max v.depth (itemsDepth vs)

def fieldsDepth : List (String × Json) → Nat
  | [] => 0
  | (_, v) :: fs => max v.depth (fieldsDepth fs)

end

end Json

end ApiBaseline
