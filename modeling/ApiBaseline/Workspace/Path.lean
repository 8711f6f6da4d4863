/-!
# Paths

A path is a text; its names are separated by slashes. Where two slashes meet,
and at the end, there is no name, and a single dot is a name only at the very
beginning. What a path is shown as is always its text.
-/

namespace ApiBaseline.Path

/-- The pieces between slashes. -/
def pieces (path : String) : List String := path.splitOn "/"

/-- The path begins at the root. -/
def isAbsolute (path : String) : Bool := path.toList.head? == some '/'

/-- The path, last character first, without slashes and lone dots at its end.
A dot at the very beginning stays, and so does the slash of the root. -/
def trimReversed : List Char → List Char
  | ['/'] => ['/']
  | ['.'] => ['.']
  | '/' :: cs => trimReversed cs
  | '.' :: '/' :: cs => if cs.isEmpty then ['/'] else trimReversed ('/' :: cs)
  | cs => cs

/-- The path without what carries no name at its end. -/
def trimmed (path : String) : List Char := (trimReversed path.toList.reverse).reverse

def lastName (path : String) : String :=
  String.ofList ((trimmed path).reverse.takeWhile (· ≠ '/')).reverse

/-- The path of the directory that a path lies in. The root and the empty path
lie in none. -/
def parent? (path : String) : Option String :=
  let cs := trimmed path
  if cs.isEmpty || cs == ['/'] then none
  else some (String.ofList (trimReversed (cs.reverse.dropWhile (· ≠ '/'))).reverse)

/-- What stands behind the last dot of the last name, unless the name begins
with that dot. -/
def extension? (path : String) : Option String :=
  let name := (lastName path).toList
  let backwards := name.reverse.takeWhile (· ≠ '.')
  if name = ['.', '.'] || backwards.length + 1 ≥ name.length then none
  else some (String.ofList backwards.reverse)

/-- The path of a JSON file, by its extension in any case. -/
def isJson (path : String) : Bool :=
  (extension? path).any fun e => e.map Char.toLower == "json"

end ApiBaseline.Path
