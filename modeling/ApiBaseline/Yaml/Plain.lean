import ApiBaseline.Schema.Datum
import ApiBaseline.Yaml.Token

/-!
# What a plain scalar is

A plain scalar without a tag is null, a flag, an integer or a double if it is
written like one, and else a text. Integers may have a sign and be written in
four bases; digits behind a leading zero are no number. What is written like
an integer of more than 64 bits, but no more than 128, is no constant at all;
a greater one in base ten is a double.
-/

namespace ApiBaseline.Yaml

/-- A word for null. The empty text is not one of them. -/
def isNullWord (s : String) : Bool := ["~", "null", "Null", "NULL"].contains s

def flagWord? (s : String) : Option Bool :=
  if ["true", "True", "TRUE"].contains s then some true
  else if ["false", "False", "FALSE"].contains s then some false
  else none

/-! ## Integers -/

/-- The number that digits of a base make up; there is at least one. -/
def digitsIn? (base : Nat) (cs : List Char) : Option Nat :=
  if cs.isEmpty then none
  else cs.foldlM (fun n c => do
    let d ← hexValue? c
    if d < base then some (base * n + d) else none) 0

/-- The number behind the mark of its base, if it has one. -/
def based? : List Char → Option Nat
  | '0' :: 'x' :: cs => digitsIn? 16 cs
  | '0' :: 'o' :: cs => digitsIn? 8 cs
  | '0' :: 'b' :: cs => digitsIn? 2 cs
  | _ => none

/-- Digits behind a leading zero, with a sign or not: they are no number. -/
def hasLeadingZero (cs : List Char) : Bool :=
  let digits := match cs with
    | '+' :: rest => rest
    | '-' :: rest => rest
    | _ => cs
  match digits with
  | '0' :: rest => !rest.isEmpty && rest.all Char.isDigit
  | _ => false

/-- The integer that a scalar is written like, of any size. -/
def integer? (cs : List Char) : Option Int :=
  let decimal (ds : List Char) : Option Nat :=
    if hasLeadingZero cs then none else digitsIn? 10 ds
  match cs with
  | '-' :: ds => ((based? ds).or (decimal ds)).map fun n => -(n : Int)
  | '+' :: ds => ((based? ds).or (decimal ds)).map Int.ofNat
  | ds => ((based? ds).or (decimal ds)).map Int.ofNat

/-- An integer of no more than 128 bits, with or without a sign. -/
def fitsWide (n : Int) : Bool :=
  -0x80000000000000000000000000000000 ≤ n && n < 0x100000000000000000000000000000000

/-! ## Doubles -/

/-- The digits of a fraction with its point, if there is one, and the rest. -/
def takeFraction : List Char → List Char × List Char
  | '.' :: cs => (cs.takeWhile Char.isDigit, cs.dropWhile Char.isDigit)
  | cs => ([], cs)

/-- The value of an exponent with its mark; nothing may follow it. -/
def exponent? : List Char → Option Int
  | [] => some 0
  | c :: cs =>
    if c = 'e' ∨ c = 'E' then
      match cs with
      | '-' :: ds => (digitsIn? 10 ds).map fun n => -(n : Int)
      | '+' :: ds => (digitsIn? 10 ds).map Int.ofNat
      | ds => (digitsIn? 10 ds).map Int.ofNat
    else none

/-- The double that a decimal without a sign is nearest to. -/
def decimal? (isNegative : Bool) (cs : List Char) : Option Decimal.Binary64 := do
  let whole := cs.takeWhile Char.isDigit
  let (fraction, rest) := takeFraction (cs.dropWhile Char.isDigit)
  let digits ← digitsIn? 10 (whole ++ fraction)
  let exponent ← exponent? rest
  let x := Decimal.Binary64.ofDecimal isNegative digits (exponent - fraction.length)
  if x.isFinite then some x else none

/-- The double that a scalar is written like. Only an infinity has a word. -/
def double? (s : String) : Option Decimal.Binary64 :=
  if [".inf", ".Inf", ".INF", "+.inf", "+.Inf", "+.INF"].contains s then
    some (Decimal.Binary64.infinity false)
  else if ["-.inf", "-.Inf", "-.INF"].contains s then some (Decimal.Binary64.infinity true)
  else if [".nan", ".NaN", ".NAN"].contains s then some Decimal.Binary64.nan
  else
    match s.toList with
    | '+' :: cs => decimal? false cs
    | '-' :: cs => decimal? true cs
    | cs => decimal? false cs

/-! ## Scalars -/

def textPlain (s : String) : Plain := .constant (.text s)

def integerPlain? (n : Int) : Option Plain :=
  (Constant.ofInt? n).map .constant

/-- What a scalar without a tag and without quotes is. -/
def plainOf? (s : String) : Option Plain :=
  if s.isEmpty || isNullWord s then some .null
  else
    match flagWord? s with
    | some b => some (.constant (.boolean b))
    | none =>
      match (integer? s.toList).filter fitsWide with
      | some n => integerPlain? n
      | none =>
        if hasLeadingZero s.toList then some (textPlain s)
        else
          match double? s with
          | some x => some (.constant (.real x))
          | none => some (textPlain s)

/-- A tag that is local to the text begins with a mark. -/
def isLocal (tag : TagBytes) : Bool := (tagBytes "!").isPrefixOf tag

/-- The name that a local tag gives, if it is a text. The mark alone is its own
name. -/
def localTag? (tag : TagBytes) : Option String :=
  if isLocal tag then
    let name := if tag.length = 1 then tag else tag.drop 1
    String.fromUTF8? (ByteArray.mk name.toArray)
  else none

/-- The full form of a tag of the language. -/
def languageTag (name : String) : TagBytes := tagBytes ("tag:yaml.org,2002:" ++ name)

/-- What a scalar with a tag is. A tag of the language asks for a form. A local
one makes a value of its own; without a name it leaves the form open. -/
def taggedPlain? (tag : TagBytes) (style : Style) (s : String) : Option Plain :=
  if (localTag? tag).isSome then none
  else if tag = languageTag "bool" then (flagWord? s).map fun b => .constant (.boolean b)
  else if tag = languageTag "int" then
    ((integer? s.toList).filter fitsWide).bind integerPlain?
  else if tag = languageTag "float" then (double? s).map fun x => .constant (.real x)
  else if tag = languageTag "null" then (if isNullWord s then some .null else none)
  else if isLocal tag && style = .plain then plainOf? s
  else some (textPlain s)

/-- What a scalar is by itself. -/
def scalarPlain? (tag? : Option TagBytes) (style : Style) (s : String) : Option Plain :=
  match tag? with
  | some tag => taggedPlain? tag style s
  | none => if style = .plain then plainOf? s else some (textPlain s)

/-- Whether a scalar stands for an absent optional value. -/
def scalarAbsent? (tag? : Option TagBytes) (style : Style) (s : String) : Option Bool :=
  if style ≠ .plain then some false
  else
    match tag? with
    | some tag =>
      if tag = languageTag "null" then (if isNullWord s then some true else none)
      else some false
    | none => some (s.isEmpty || isNullWord s)

/-- The flag that a scalar may be read as. -/
def scalarFlag? (tag? : Option TagBytes) (style : Style) (s : String) : Option Bool :=
  if style = .plain || style = .literal && tag? = some (languageTag "bool") then flagWord? s
  else none

/-- The named value that a scalar may be read as: its local tag names one if
there is nothing else to it. -/
def scalarChoice? (tag? : Option TagBytes) (style : Style) (s : String) : Option Label :=
  match tag?.bind localTag? with
  | some name =>
    if style = .plain && (s.isEmpty || isNullWord s) then some (.name name) else none
  | none => some (.name s)

/-- A scalar as what it may be read as. -/
def scalarOf (tag? : Option TagBytes) (style : Style) (s : String) : Scalar where
  text? := some s
  flag? := scalarFlag? tag? style s
  choice? := scalarChoice? tag? style s
  absent? := scalarAbsent? tag? style s
  isEmpty := style = .plain && s.isEmpty
  plain? := scalarPlain? tag? style s

end ApiBaseline.Yaml
