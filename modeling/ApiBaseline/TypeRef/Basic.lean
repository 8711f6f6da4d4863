/-!
# References to types

A signature mentions types by reference: a named type with its generic
arguments, a generic parameter of the enclosing definition, an array, a
managed reference (by-ref) or a pointer. A named reference and the number of
its arguments pick a definition; substitution closes a reference over the
arguments of an enclosing one.
-/

namespace ApiBaseline

/-- A reference to a type. -/
inductive TypeRef where
  /-- A named type; nesting is part of the name. -/
  | named (name : String) (args : List TypeRef)
  /-- A generic parameter of the enclosing type or method. -/
  | param (name : String)
  /-- An array with a number of dimensions. -/
  | array (element : TypeRef) (rank : Nat)
  /-- A managed reference. -/
  | byRef (target : TypeRef)
  /-- An unmanaged pointer. -/
  | pointer (target : TypeRef)
  deriving Inhabited, Repr

namespace TypeRef

/-! ## Equality -/

mutual

/-- Equality of references is decidable. -/
def decEq : (a b : TypeRef) → Decidable (a = b)
  | named n as, named m bs =>
    match decEqAll as bs with
    | .isTrue ha =>
      if hn : n = m then .isTrue (by rw [hn, ha])
      else .isFalse (by intro h; injection h; contradiction)
    | .isFalse ha => .isFalse (by intro h; injection h; contradiction)
  | param n, param m =>
    if hn : n = m then .isTrue (by rw [hn])
    else .isFalse (by intro h; injection h; contradiction)
  | array a r, array b s =>
    match decEq a b with
    | .isTrue ha =>
      if hr : r = s then .isTrue (by rw [ha, hr])
      else .isFalse (by intro h; injection h; contradiction)
    | .isFalse ha => .isFalse (by intro h; injection h; contradiction)
  | byRef a, byRef b =>
    match decEq a b with
    | .isTrue ha => .isTrue (by rw [ha])
    | .isFalse ha => .isFalse (by intro h; injection h; contradiction)
  | pointer a, pointer b =>
    match decEq a b with
    | .isTrue ha => .isTrue (by rw [ha])
    | .isFalse ha => .isFalse (by intro h; injection h; contradiction)
  | named .., param _ | named .., array .. | named .., byRef _ | named .., pointer _
  | param _, named .. | param _, array .. | param _, byRef _ | param _, pointer _
  | array .., named .. | array .., param _ | array .., byRef _ | array .., pointer _
  | byRef _, named .. | byRef _, param _ | byRef _, array .. | byRef _, pointer _
  | pointer _, named .. | pointer _, param _ | pointer _, array .. | pointer _, byRef _ =>
    .isFalse nofun

def decEqAll : (as bs : List TypeRef) → Decidable (as = bs)
  | [], [] => .isTrue rfl
  | a :: as, b :: bs =>
    match decEq a b, decEqAll as bs with
    | .isTrue ha, .isTrue has => .isTrue (by rw [ha, has])
    | .isFalse ha, _ => .isFalse (by intro h; injection h; contradiction)
    | _, .isFalse has => .isFalse (by intro h; injection h; contradiction)
  | [], _ :: _ | _ :: _, [] => .isFalse nofun

end

instance : DecidableEq TypeRef := decEq

/-! ## Names -/

/-- The root of every hierarchy of classes. -/
def objectName : String := "System.Object"

/-- The root of every hierarchy of value types. -/
def valueTypeName : String := "System.ValueType"

/-- The type of a method that returns nothing. -/
def void : TypeRef := named "System.Void" []

/-- The name of the definition that a named reference points at. -/
def definitionName? : TypeRef → Option String
  | named name _ => some name
  | _ => none

/-- The generic arguments; only a named reference has any. -/
def args : TypeRef → List TypeRef
  | named _ args => args
  | _ => []

/-- The number of generic arguments. With the name it picks the definition:
`Ns.Thing` and `Ns.Thing<T>` are different types. -/
def arity (t : TypeRef) : Nat := t.args.length

/-- A reference to one of the two roots, whatever its arguments. -/
def isRoot (t : TypeRef) : Bool :=
  match t.definitionName? with
  | some name => name == objectName || name == valueTypeName
  | none => false

/-- The reference without one level of by-ref. -/
def withoutByRef : TypeRef → TypeRef
  | byRef target => target
  | t => t

def isByRef : TypeRef → Bool
  | byRef _ => true
  | _ => false

/-- The value types that every module knows without a definition. -/
def builtinValueTypes : List String :=
  ["System.Boolean", "System.Byte", "System.SByte", "System.Char", "System.Int16",
   "System.UInt16", "System.Int32", "System.UInt32", "System.Int64", "System.UInt64",
   "System.IntPtr", "System.UIntPtr", "System.Single", "System.Double", "System.Decimal",
   "System.DateTime", "System.DateTimeOffset", "System.TimeSpan", "System.Guid",
   "System.Nullable", "System.Void"]

/-- A reference to a built-in value type, whatever its arguments. -/
def isBuiltinValueType (t : TypeRef) : Bool :=
  match t.definitionName? with
  | some name => builtinValueTypes.contains name
  | none => false

/-! ## Substitution -/

mutual

/-- Replaces each generic parameter by the argument at the position of the
first parameter with its name; one without an argument stays in place. -/
def substitute (params : List String) (actuals : List TypeRef) : TypeRef → TypeRef
  | named name args => named name (substituteAll params actuals args)
  | param name => ((params.zip actuals).lookup name).getD (param name)
  | array element rank => array (substitute params actuals element) rank
  | byRef target => byRef (substitute params actuals target)
  | pointer target => pointer (substitute params actuals target)

def substituteAll (params : List String) (actuals : List TypeRef) :
    List TypeRef → List TypeRef
  | [] => []
  | t :: ts => substitute params actuals t :: substituteAll params actuals ts

end

theorem substituteAll_eq_map (params : List String) (actuals ts : List TypeRef) :
    substituteAll params actuals ts = ts.map (substitute params actuals) := by
  induction ts with
  | nil => rfl
  | cons t ts ih => simp [substituteAll, ih]

@[simp] theorem substituteAll_length (params : List String) (actuals ts : List TypeRef) :
    (substituteAll params actuals ts).length = ts.length := by
  simp [substituteAll_eq_map]

end TypeRef

end ApiBaseline
