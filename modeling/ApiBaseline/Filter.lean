import ApiBaseline.Metadata.Definition
import ApiBaseline.Settings

/-!
# Filters

A filter is a list of named predicates on definitions, and accepts what all of
them accept. A predicate judges a definition by itself: a nested type by its
own access and not by that of the type around it.
-/

namespace ApiBaseline

/-- A named condition on definitions. -/
structure Predicate where
  name : String
  accepts : Definition → Bool

/-- A chain of conditions. -/
abbrev Filter := List Predicate

/-- The definition is public by its own access. -/
def Predicate.publicOnly : Predicate :=
  ⟨"public_only", fun d => d.access.accessibility == .public⟩

/-- What is left of a list behind another one that it begins with. -/
def dropPrefix? : (front cs : List Char) → Option (List Char)
  | [], cs => some cs
  | f :: fs, c :: cs => if f = c then dropPrefix? fs cs else none
  | _ :: _, [] => none

/-- The namespace is `outer` or lies in it: behind `outer` comes nothing, or a
dot. -/
def inNamespace (outer : String) (namespaceName : String) : Bool :=
  match dropPrefix? outer.toList namespaceName.toList with
  | none => false
  | some [] => true
  | some (c :: _) => c == '.'

/-- The definition lies in none of the namespaces. -/
def Predicate.excludeNamespaces (outers : List String) : Predicate :=
  ⟨"exclude_namespaces", fun d => !outers.any (inNamespace · d.namespaceName)⟩

/-- The definition's simple name has no angle bracket; names that a compiler
makes up have one. -/
def Predicate.excludeCompilerGenerated : Predicate :=
  ⟨"exclude_compiler_generated",
    fun d => !d.simpleName.toList.any fun c => c == '<' || c == '>'⟩

/-- The definition's full name is none of the names. -/
def Predicate.excludeTypes (names : List String) : Predicate :=
  ⟨"exclude_types", fun d => !names.contains d.name⟩

namespace Filter

/-- The filter with one more condition at its end. -/
def also (f : Filter) (p : Predicate) : Filter := f ++ [p]

/-- Leaves out namespaces; an empty list adds no condition. -/
def excludeNamespaces (f : Filter) (outers : List String) : Filter :=
  if outers.isEmpty then f else f.also (.excludeNamespaces outers)

/-- Leaves out types by name; an empty list adds no condition. -/
def excludeTypes (f : Filter) (names : List String) : Filter :=
  if names.isEmpty then f else f.also (.excludeTypes names)

def ofSettings (s : Settings) : Filter :=
  let visible : Filter := if s.publicOnly then [.publicOnly] else []
  let written :=
    if s.includeCompilerGenerated then visible
    else visible.also .excludeCompilerGenerated
  (written.excludeNamespaces s.excludeNamespaces).excludeTypes s.excludeTypes

/-- Every condition accepts the definition. -/
def accepts (f : Filter) (d : Definition) : Bool :=
  f.all (·.accepts d)

/-- The names of the conditions, as a structure with one field. -/
def describe (f : Filter) : String :=
  "TypeFilter \x7b predicates: ["
    ++ ", ".intercalate (f.map fun p => "\"" ++ p.name ++ "\"") ++ "] \x7d"

end Filter

end ApiBaseline
