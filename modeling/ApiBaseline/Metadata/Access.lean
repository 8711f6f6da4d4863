import ApiBaseline.Named

/-!
# Access masks and accessibility

Metadata marks a type and a member with an access mask. Both kinds of masks
answer the same four questions, and the accessibility of a thing is settled by
asking them in a fixed order; what no question covers is internal.
-/

namespace ApiBaseline

/-- The access mask of a type. -/
inductive TypeAccess where
  | notPublic
  | «public»
  | nestedPublic
  | nestedPrivate
  | nestedFamily
  | nestedAssembly
  | nestedFamilyAndAssembly
  | nestedFamilyOrAssembly
  deriving DecidableEq, Repr, Inhabited

instance : Named TypeAccess where
  all := [.notPublic, .public, .nestedPublic, .nestedPrivate, .nestedFamily,
    .nestedAssembly, .nestedFamilyAndAssembly, .nestedFamilyOrAssembly]
  name
    | .notPublic => "not_public"
    | .public => "public"
    | .nestedPublic => "nested_public"
    | .nestedPrivate => "nested_private"
    | .nestedFamily => "nested_family"
    | .nestedAssembly => "nested_assembly"
    | .nestedFamilyAndAssembly => "nested_family_and_assembly"
    | .nestedFamilyOrAssembly => "nested_family_or_assembly"

/-- The access mask of a method, constructor or field. -/
inductive MemberAccess where
  | compilerControlled
  | «private»
  | familyAndAssembly
  | assembly
  | family
  | familyOrAssembly
  | «public»
  deriving DecidableEq, Repr, Inhabited

instance : Named MemberAccess where
  all := [.compilerControlled, .private, .familyAndAssembly, .assembly, .family,
    .familyOrAssembly, .public]
  name
    | .compilerControlled => "compiler_controlled"
    | .private => "private"
    | .familyAndAssembly => "family_and_assembly"
    | .assembly => "assembly"
    | .family => "family"
    | .familyOrAssembly => "family_or_assembly"
    | .public => "public"

/-- The questions that an access mask answers. -/
structure AccessFlags where
  isPublic : Bool
  isFamilyOrAssembly : Bool
  isFamily : Bool
  isPrivate : Bool
  deriving DecidableEq, Repr

/-- The answers of a type's mask; a public nested type is public. -/
def TypeAccess.flags (a : TypeAccess) : AccessFlags where
  isPublic := a == .public || a == .nestedPublic
  isFamilyOrAssembly := a == .nestedFamilyOrAssembly
  isFamily := a == .nestedFamily
  isPrivate := a == .nestedPrivate

/-- The answers of a member's mask. -/
def MemberAccess.flags (a : MemberAccess) : AccessFlags where
  isPublic := a == .public
  isFamilyOrAssembly := a == .familyOrAssembly
  isFamily := a == .family
  isPrivate := a == .private

/-- How far a type or member can be seen. -/
inductive Accessibility where
  | «public»
  | protectedInternal
  | «protected»
  | «private»
  | internal
  deriving DecidableEq, Repr, Inhabited

instance : Named Accessibility where
  all := [.public, .protectedInternal, .protected, .private, .internal]
  name
    | .public => "public"
    | .protectedInternal => "protected_internal"
    | .protected => "protected"
    | .private => "private"
    | .internal => "internal"

/-- The words for an accessibility in an identifier. -/
def Accessibility.keyword : Accessibility → String
  | .public => "public"
  | .protectedInternal => "protected internal"
  | .protected => "protected"
  | .private => "private"
  | .internal => "internal"

/-- The accessibility that the answers amount to: the widest question that is
answered with yes counts. -/
def AccessFlags.accessibility (f : AccessFlags) : Accessibility :=
  if f.isPublic then .public
  else if f.isFamilyOrAssembly then .protectedInternal
  else if f.isFamily then .protected
  else if f.isPrivate then .private
  else .internal

/-- The accessibility of a type, by its own mask. -/
def TypeAccess.accessibility (a : TypeAccess) : Accessibility := a.flags.accessibility

def MemberAccess.accessibility (a : MemberAccess) : Accessibility :=
  a.flags.accessibility

end ApiBaseline
