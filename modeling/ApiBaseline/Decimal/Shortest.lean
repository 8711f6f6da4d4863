import ApiBaseline.Decimal.Binary64

/-!
# The shortest decimal that reads back

A double is written with the fewest digits that are read back as the same
double. The reals that round to it form an interval, which contains its ends
exactly when the mantissa is even; on the grid of decimals with `n` digits
only the two neighbours of the value have to be tested. The first grid with a
hit wins; of two hits the nearer one does.

How the digits are laid out is a choice of the format that writes them and is
held in a `Layout`.
-/

namespace ApiBaseline.Decimal

/-- Decimal digits `d₁ … dₙ` standing for `0.d₁ … dₙ * 10 ^ point`. -/
structure Digits where
  /-- The digits as one number. -/
  value : Nat
  /-- How many digits stand before the point. -/
  point : Int
  deriving DecidableEq, Repr

/-- The number of decimal digits. -/
def digitCount (n : Nat) : Nat := (Nat.toDigits 10 n).length

/-- The power of ten just above a positive quotient: the least `k` with
`r < 10 ^ k`. -/
def decimalOrder (r : Ratio) : Int :=
  let guess : Int := (digitCount r.num : Int) - digitCount r.den
  let power := Ratio.decimal 1 guess
  if r.num * power.den < r.den * power.num then guess else guess + 1

/-- The interval of the reals that round to a finite positive double, in units
of a quarter of its last place. -/
structure Interval where
  low : Ratio
  high : Ratio
  closed : Bool

/-- The interval of a finite double. Below a power of two the neighbouring
double is only half as far away. -/
def Binary64.interval (x : Binary64) : Interval :=
  let m := x.mantissa
  let quarter := x.exponent - 2
  let below := if m = fractionUnit && -1074 < x.exponent then 1 else 2
  { low := Ratio.dyadic (4 * m - below) quarter
    high := Ratio.dyadic (4 * m + 2) quarter
    closed := m % 2 == 0 }

def Ratio.le (a b : Ratio) : Bool := a.num * b.den ≤ b.num * a.den

def Ratio.lt (a b : Ratio) : Bool := a.num * b.den < b.num * a.den

/-- The quotient lies in the interval. -/
def Interval.contains (i : Interval) (r : Ratio) : Bool :=
  if i.closed then i.low.le r && r.le i.high else i.low.lt r && r.lt i.high

/-- The decimal with `count` digits that is read back as `x` and is nearest to
it, if there is one. A value halfway between two goes to the greater one. -/
def Binary64.onGrid? (x : Binary64) (order : Int) (count : Nat) : Option Nat :=
  let r := x.toRatio
  let unit := order - count
  let scaled := r.div (Ratio.decimal 1 unit)
  let low := scaled.num / scaled.den
  let reads (n : Nat) : Bool := x.interval.contains (Ratio.decimal n unit)
  match reads low, reads (low + 1) with
  | true, true =>
    if 2 * (scaled.num % scaled.den) < scaled.den then some low else some (low + 1)
  | true, false => some low
  | false, true => some (low + 1)
  | false, false => none

/-- The first grid, from `count` digits on, with a decimal that reads back. -/
def Binary64.searchGrids (x : Binary64) (order : Int) : (fuel count : Nat) → Digits
  | 0, count => ⟨(x.onGrid? order count).getD 0, order⟩
  | fuel + 1, count =>
    match x.onGrid? order count with
    | some n =>
      -- Rounding up to the next power of ten moves the point.
      if digitCount n ≤ count then ⟨n, order⟩ else ⟨n, order + 1⟩
    | none => x.searchGrids order fuel (count + 1)

/-- The digits of a finite positive double. Seventeen are always enough. -/
def Binary64.shortest (x : Binary64) : Digits :=
  x.searchGrids (decimalOrder x.toRatio) 17 1

/-! ## Layout -/

/-- The digits without zeros at the end; a lone zero stays. -/
def trimZeros (cs : List Char) : List Char :=
  match (cs.reverse.dropWhile (· == '0')).reverse with
  | [] => ['0']
  | ds => ds

/-- Digits with a point: zeros fill the places up to it. -/
def Digits.positional (d : Digits) : List Char :=
  let cs := trimZeros (Nat.toDigits 10 d.value)
  match d.point with
  | .ofNat 0 => '0' :: '.' :: cs
  | .ofNat p =>
    if cs.length ≤ p then cs ++ List.replicate (p - cs.length) '0'
    else cs.take p ++ '.' :: cs.drop p
  | .negSucc p => '0' :: '.' :: List.replicate (p + 1) '0' ++ cs

/-- How a format lays out the digits of a double. -/
structure Layout where
  /-- Magnitudes from here on have an exponent. -/
  exponentFrom : Ratio
  /-- Magnitudes below this one have an exponent, zero excepted. -/
  exponentBelow : Ratio
  /-- The mark of the exponent; its sign is always written. -/
  mark : Char
  /-- The least number of digits of the exponent. -/
  exponentWidth : Nat
  infinity : String
  nan : String

/-- Digits with one place before the point, and an exponent. -/
def Digits.scientific (layout : Layout) (d : Digits) : List Char :=
  let cs := trimZeros (Nat.toDigits 10 d.value)
  let exponent := d.point - 1
  let digits := Nat.toDigits 10 exponent.natAbs
  let fraction := match cs.drop 1 with
    | [] => []
    | rest => '.' :: rest
  cs.take 1 ++ fraction ++ layout.mark :: (if exponent < 0 then '-' else '+')
    :: List.replicate (layout.exponentWidth - digits.length) '0' ++ digits

/-- The magnitude of a finite double. -/
def Layout.magnitude (layout : Layout) (x : Binary64) : List Char :=
  let r := x.toRatio
  if r.num = 0 then ['0']
  else if layout.exponentBelow.le r && r.lt layout.exponentFrom then x.shortest.positional
  else x.shortest.scientific layout

/-- The written form of a double. Only a value that is no number has no sign. -/
def Layout.write (layout : Layout) (x : Binary64) : String :=
  if x.isNaN then layout.nan
  else
    let body :=
      if x.isInfinite then layout.infinity.toList else layout.magnitude x
    String.ofList (if x.isNegative then '-' :: body else body)

end ApiBaseline.Decimal
