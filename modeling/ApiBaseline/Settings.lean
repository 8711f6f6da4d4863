/-!
# Filter settings

A settings file says which definitions of a module a document leaves out.
Options given on the command line are laid over the file; they only ever
widen what is left out.
-/

namespace ApiBaseline

/-- Which definitions make it into a document. -/
structure Settings where
  /-- Only types that are public by their own access. -/
  publicOnly : Bool
  /-- Namespaces to leave out, with all that is nested in them. -/
  excludeNamespaces : List String
  /-- Full names of types to leave out. -/
  excludeTypes : List String
  /-- Keep the types that a compiler makes up. -/
  includeCompilerGenerated : Bool
  deriving DecidableEq, Repr

namespace Settings

def default : Settings := ⟨false, [], [], false⟩

/-- A list with one more element, unless it has it already. -/
def addNew (xs : List String) (x : String) : List String :=
  if x ∈ xs then xs else xs ++ [x]

/-- The settings with command-line options laid over them. -/
def withOverrides (s : Settings) (publicOnly : Bool) (excludeNamespaces : List String) :
    Settings :=
  { s with
    publicOnly := s.publicOnly || publicOnly
    excludeNamespaces := excludeNamespaces.foldl addNew s.excludeNamespaces }

end Settings

end ApiBaseline
