import ApiBaseline.Constant

/-!
# Numerals

A number of a JSON text is kept the way it is written, since its written form
decides what it is read as: a numeral without fraction and exponent is an
integer as long as it fits in 64 bits, and with a sign if it fits so; any other
one is a double.

A double is read in two steps. The digits make up a significand of 64 bits as
far as they fit in; it is rounded to a double, and that is then scaled by a
power of ten. The result is rounded twice and need not be the nearest one.
-/

namespace ApiBaseline.Json

/-- A number as it is written. The whole part has no leading zeros. -/
structure Numeral where
  negative : Bool
  whole : Nat
  /-- The digits behind the point; without a point there are none. -/
  fraction : List (Fin 10)
  exponent : Option Int
  deriving DecidableEq, Repr

namespace Numeral

def ofInt (n : Int) : Numeral := ⟨n < 0, n.natAbs, [], none⟩

/-! ## Writing -/

/-- The decimal digits of a number. -/
def digitChars (n : Nat) : List Char := Nat.toDigits 10 n

def digitChar (d : Fin 10) : Char := Nat.digitChar d

/-- An integer with its sign, if it is negative. -/
def signedChars (n : Int) : List Char :=
  if n < 0 then '-' :: digitChars n.natAbs else digitChars n.natAbs

/-- The fraction with its point. -/
def fractionChars : List (Fin 10) → List Char
  | [] => []
  | ds => '.' :: ds.map digitChar

def exponentChars : Option Int → List Char
  | none => []
  | some e => 'e' :: signedChars e

/-- The written form. -/
def chars (n : Numeral) : List Char :=
  (if n.negative then ['-'] else []) ++ digitChars n.whole ++ fractionChars n.fraction
    ++ exponentChars n.exponent

/-! ## Reading -/

def digit? (c : Char) : Option (Fin 10) :=
  if c.isDigit then some (Fin.ofNat 10 (c.toNat - '0'.toNat)) else none

/-- The number that digits make up. -/
def ofDigits (ds : List (Fin 10)) : Nat := ds.foldl (fun n d => 10 * n + d.val) 0

/-- The leading digits of a text, and what is left. -/
def takeDigits : List Char → List (Fin 10) × List Char
  | [] => ([], [])
  | c :: cs =>
    match digit? c with
    | some d => let (ds, rest) := takeDigits cs; (d :: ds, rest)
    | none => ([], c :: cs)

/-- A mark in front of a text is taken off. -/
def takeSign : List Char → Bool × List Char
  | '-' :: cs => (true, cs)
  | cs => (false, cs)

/-- The whole part: a zero, or digits that begin with another digit. -/
def takeWhole? (cs : List Char) : Option (Nat × List Char) :=
  match takeDigits cs with
  | ([], _) => none
  | (ds@(d :: _ :: _), rest) => if d = 0 then none else some (ofDigits ds, rest)
  | (ds, rest) => some (ofDigits ds, rest)

/-- The fraction; a point has a digit behind it. -/
def takeFraction? : List Char → Option (List (Fin 10) × List Char)
  | '.' :: cs =>
    match takeDigits cs with
    | ([], _) => none
    | (ds, rest) => some (ds, rest)
  | cs => some ([], cs)

/-- The exponent's value, behind its mark. Nothing may follow it. -/
def exponentValue? (cs : List Char) : Option Int :=
  let (negative, digits) := match cs with
    | '+' :: rest => (false, rest)
    | _ => takeSign cs
  match takeDigits digits with
  | ([], _) => none
  | (ds, []) => some (if negative then -(ofDigits ds : Int) else ofDigits ds)
  | (_, _ :: _) => none

/-- The exponent; nothing may follow the numeral. -/
def exponent? : List Char → Option (Option Int)
  | [] => some none
  | c :: cs => if c = 'e' ∨ c = 'E' then (exponentValue? cs).map some else none

def ofChars? (cs : List Char) : Option Numeral := do
  let (negative, unsigned) := takeSign cs
  let (whole, afterWhole) ← takeWhole? unsigned
  let (fraction, afterFraction) ← takeFraction? afterWhole
  let exponent ← exponent? afterFraction
  return ⟨negative, whole, fraction, exponent⟩

/-! ## Value -/

/-- A significand of 64 bits and the power of ten that it is scaled by. -/
structure Scaled where
  significand : Nat
  exponent : Int
  deriving DecidableEq, Repr

/-- The least number that does not fit in 64 bits. -/
def significandLimit : Nat := 0x10000000000000000

/-- The leading digits of a whole number that fit in 64 bits. -/
def leading (n : Nat) : Scaled :=
  if n < significandLimit then ⟨n, 0⟩
  else
    let s := leading (n / 10)
    ⟨s.significand, s.exponent + 1⟩
termination_by n
decreasing_by simp only [significandLimit] at *; omega

/-- The significand with digits of the fraction, up to the first one that does
not fit. -/
def Scaled.extend (s : Scaled) : List (Fin 10) → Scaled
  | [] => s
  | d :: ds =>
    let next := 10 * s.significand + d
    if next < significandLimit then extend ⟨next, s.exponent - 1⟩ ds else s

/-- The greatest exponent that is taken at its value; a greater one counts as
out of range, whatever the digits. -/
def exponentLimit : Nat := 0x7fffffff

/-- The greatest power of ten that doubles are scaled by at once. -/
def powerLimit : Nat := 308

/-- The double nearest to a power of ten. -/
def power (n : Nat) : Decimal.Binary64 := Decimal.Binary64.ofDecimal false 1 n

/-- A double divided by `10 ^ n`, by the greatest power at a time. -/
def divide (x : Decimal.Binary64) (n : Nat) : Decimal.Binary64 :=
  if n ≤ powerLimit then x.scaleDown (power n)
  else if x.mantissa = 0 then x
  else divide (x.scaleDown (power powerLimit)) (n - powerLimit)
termination_by n
decreasing_by simp only [powerLimit] at *; omega

/-- The double that a significand and its power stand for, if it is in range. -/
def Scaled.toDouble? (s : Scaled) : Option Decimal.Binary64 :=
  let x := Decimal.Binary64.ofDecimal false s.significand 0
  match s.exponent with
  | .ofNat e =>
    if e ≤ powerLimit then
      let y := x.scaleUp (power e)
      if y.isFinite then some y else none
    else if x.mantissa = 0 then some x
    else none
  | .negSucc e => some (divide x (e + 1))

/-- The magnitude of the double that a numeral is read as. -/
def magnitude? (n : Numeral) : Option Decimal.Binary64 :=
  let s := (leading n.whole).extend n.fraction
  let e := n.exponent.getD 0
  if e.natAbs ≤ exponentLimit then Scaled.toDouble? ⟨s.significand, s.exponent + e⟩
  else if s.significand ≠ 0 ∧ 0 < e then none
  else some (Decimal.Binary64.ofMagnitude false 0)

/-- The double that a numeral is read as, if it is in range. -/
def double? (n : Numeral) : Option Decimal.Binary64 :=
  n.magnitude?.map fun x => if n.negative then x.neg else x

/-- The integer that a numeral stands for, of any size. A zero with a sign is a
double. -/
def integer? (n : Numeral) : Option Int :=
  if n.fraction ≠ [] ∨ n.exponent ≠ none ∨ n.negative ∧ n.whole = 0 then none
  else some (if n.negative then -(n.whole : Int) else n.whole)

/-- The constant that a numeral is read as: an integer if it fits, or else a
double; none if it is out of range. -/
def constant? (n : Numeral) : Option Constant :=
  match n.integer?.bind Constant.ofInt? with
  | some c => some c
  | none => n.double?.map .real

end Numeral

end ApiBaseline.Json
