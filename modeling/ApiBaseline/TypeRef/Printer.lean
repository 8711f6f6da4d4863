import ApiBaseline.TypeRef.Basic

/-!
# Writing references

A reference has two written forms that differ in one mark only. The display
form writes `!` before a generic parameter and is what manifests hold; the
canonical name leaves the mark out and is what identifiers are made of.
-/

namespace ApiBaseline

/-- A list in angle brackets, its parts separated by a comma and a space; an
empty list is not written at all. -/
def angled : List String → String
  | [] => ""
  | parts => "<" ++ ", ".intercalate parts ++ ">"

namespace TypeRef

mutual

/-- The written form, with `mark` before each generic parameter. An array of
rank `n` has `n - 1` commas between its brackets. -/
def spell (mark : String) : TypeRef → String
  | named name args => name ++ angled (spellAll mark args)
  | param name => mark ++ name
  | array element rank =>
    spell mark element ++ "[" ++ String.ofList (List.replicate (rank - 1) ',') ++ "]"
  | byRef target => spell mark target ++ "&"
  | pointer target => spell mark target ++ "*"

/-- The written forms of a list of references. -/
def spellAll (mark : String) : List TypeRef → List String
  | [] => []
  | t :: ts => spell mark t :: spellAll mark ts

end

theorem spellAll_eq_map (mark : String) (ts : List TypeRef) :
    spellAll mark ts = ts.map (spell mark) := by
  induction ts with
  | nil => rfl
  | cons t ts ih => simp [spellAll, ih]

/-- The form that manifests hold, for instance `Ns.Pair<!T, System.Int32[]>`. -/
def display (t : TypeRef) : String := t.spell "!"

/-- The form in identifiers, for instance `Ns.Pair<T, System.Int32[]>`. -/
def canonicalName (t : TypeRef) : String := t.spell ""

end TypeRef

end ApiBaseline
