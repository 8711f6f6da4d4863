/-!
# Double-precision numbers

A double is its 64 bits. A finite one stands for `mantissa * 2 ^ exponent`,
with a sign; its magnitude bits, read as a number, grow with its value, so a
value is rounded by finding the mantissa and exponent that its magnitude bits
are made of. All arithmetic is exact, on natural numbers.
-/

namespace ApiBaseline.Decimal

/-- A double, as its bits: the sign, eleven bits of exponent, 52 of fraction. -/
structure Binary64 where
  bits : UInt64
  deriving DecidableEq, Repr, Inhabited

/-- A non-negative quotient of natural numbers. The denominator is positive
wherever one is built. -/
structure Ratio where
  num : Nat
  den : Nat
  deriving DecidableEq, Repr

/-- The quotient `mantissa * 2 ^ exponent`. -/
def Ratio.dyadic (mantissa : Nat) (exponent : Int) : Ratio :=
  match exponent with
  | .ofNat e => ⟨mantissa * Nat.pow 2 e, 1⟩
  | .negSucc e => ⟨mantissa, Nat.pow 2 (e + 1)⟩

/-- The quotient `digits * 10 ^ exponent`. -/
def Ratio.decimal (digits : Nat) (exponent : Int) : Ratio :=
  match exponent with
  | .ofNat e => ⟨digits * Nat.pow 10 e, 1⟩
  | .negSucc e => ⟨digits, Nat.pow 10 (e + 1)⟩

def Ratio.mul (a b : Ratio) : Ratio := ⟨a.num * b.num, a.den * b.den⟩

def Ratio.div (a b : Ratio) : Ratio := ⟨a.num * b.den, a.den * b.num⟩

/-- The natural number nearest to a quotient, a half going to the even one. -/
def Ratio.roundEven (r : Ratio) : Nat :=
  let q := r.num / r.den
  let rest := 2 * (r.num % r.den)
  if rest < r.den then q
  else if r.den < rest then q + 1
  else q + q % 2

namespace Binary64

/-- What the sign bit counts for: `2 ^ 63`. -/
def signUnit : Nat := 0x8000000000000000

/-- What the lowest bit of the exponent counts for: `2 ^ 52`. -/
def fractionUnit : Nat := 0x10000000000000

/-- The magnitude bits of infinity; greater ones are not numbers. -/
def infinityBits : Nat := 0x7ff * fractionUnit

/-- The bits without the sign. -/
def magnitude (x : Binary64) : Nat := x.bits.toNat % signUnit

/-- The sign bit. -/
def isNegative (x : Binary64) : Bool := signUnit ≤ x.bits.toNat

/-- Not a number. -/
def isNaN (x : Binary64) : Bool := infinityBits < x.magnitude

/-- One of the two infinities. -/
def isInfinite (x : Binary64) : Bool := x.magnitude == infinityBits

/-- A number that is not infinite. -/
def isFinite (x : Binary64) : Bool := x.magnitude < infinityBits

/-- The whole number that the fraction bits and the implicit bit make up. -/
def mantissa (x : Binary64) : Nat :=
  if x.magnitude < fractionUnit then x.magnitude
  else x.magnitude % fractionUnit + fractionUnit

/-- The power of two that the mantissa is scaled by. -/
def exponent (x : Binary64) : Int :=
  if x.magnitude < fractionUnit then -1074 else x.magnitude / fractionUnit - 1075

/-- The absolute value of a finite double. -/
def toRatio (x : Binary64) : Ratio := Ratio.dyadic x.mantissa x.exponent

/-- A double from its sign and its magnitude bits. -/
def ofMagnitude (negative : Bool) (magnitude : Nat) : Binary64 :=
  ⟨UInt64.ofNat (if negative then signUnit + magnitude else magnitude)⟩

/-- The sign changed. -/
def neg (x : Binary64) : Binary64 := ofMagnitude (!x.isNegative) x.magnitude

def infinity (negative : Bool) : Binary64 := ofMagnitude negative infinityBits

/-- The value that stands for no number. -/
def nan : Binary64 := ⟨0x7ff8000000000000⟩

/-! ## Rounding -/

/-- The exponent of the greatest power of two that does not exceed a positive
quotient. -/
def binaryOrder (r : Ratio) : Int :=
  let guess : Int := (Nat.log2 r.num : Int) - Nat.log2 r.den
  let power := Ratio.dyadic 1 guess
  if r.num * power.den < r.den * power.num then guess - 1 else guess

/-- The magnitude bits of the double nearest to a quotient, a half going to the
even mantissa. A mantissa that rounds up to the next power of two carries into
the exponent bits; a value out of range has at least the bits of infinity. -/
def nearestMagnitude (r : Ratio) : Nat :=
  if r.num = 0 then 0
  else
    let exponent := max (binaryOrder r - 52) (-1074)
    let mantissa := (r.div (Ratio.dyadic 1 exponent)).roundEven
    (exponent + 1074).toNat * fractionUnit + mantissa

/-- The double nearest to a quotient, infinite when it is out of range. -/
def nearest (negative : Bool) (r : Ratio) : Binary64 :=
  ofMagnitude negative (min (nearestMagnitude r) infinityBits)

/-- The double nearest to `digits * 10 ^ exponent`. Values far out of range are
settled by the number of digits, without computing the power. -/
def ofDecimal (negative : Bool) (digits : Nat) (exponent : Int) : Binary64 :=
  let places : Int := (Nat.toDigits 10 digits).length + exponent
  if digits = 0 || places < -330 then ofMagnitude negative 0
  else if 310 < places then infinity negative
  else nearest negative (Ratio.decimal digits exponent)

/-- The product of two finite doubles, rounded; the sign is the first one's. -/
def scaleUp (x y : Binary64) : Binary64 :=
  nearest x.isNegative (x.toRatio.mul y.toRatio)

/-- The quotient of two finite doubles, rounded, the second not zero; the sign
is the first one's. -/
def scaleDown (x y : Binary64) : Binary64 :=
  nearest x.isNegative (x.toRatio.div y.toRatio)

end Binary64

end ApiBaseline.Decimal
