import ApiBaseline.Decimal.Shortest
import Mathlib.Algebra.Order.Field.Power
import Mathlib.Data.Rat.Cast.Order
import Mathlib.Tactic.LinearCombination
import Mathlib.Tactic.NormNum
import Mathlib.Tactic.Positivity
import Mathlib.Tactic.Ring

/-!
# The values of doubles

Quotients of natural numbers are compared without being reduced; as rational numbers they
are what they stand for. The value of a double is a function of its magnitude bits, which
are a natural number. One more in the last place is one mantissa more at the same exponent,
or the least mantissa at the next one, and either way the value grows by the unit of the
last place (`magnitudeValue_succ`). So the magnitude bits order the values.
-/

namespace ApiBaseline.Decimal

/-! ## Quotients -/

namespace Ratio

/-- The rational number that a quotient stands for. -/
def toRat (r : Ratio) : ℚ := r.num / r.den

theorem den_dyadic_pos (m : Nat) (e : Int) : 0 < (dyadic m e).den := by
  cases e with
  | ofNat e => exact Nat.one_pos
  | negSucc e => exact Nat.pow_pos (by decide)

theorem den_decimal_pos (d : Nat) (e : Int) : 0 < (decimal d e).den := by
  cases e with
  | ofNat e => exact Nat.one_pos
  | negSucc e => exact Nat.pow_pos (by decide)

theorem num_dyadic_pos {m : Nat} (hm : 0 < m) (e : Int) : 0 < (dyadic m e).num := by
  cases e with
  | ofNat e => exact Nat.mul_pos hm (Nat.pow_pos (by decide))
  | negSucc e => exact hm

theorem toRat_dyadic (m : Nat) (e : Int) : (dyadic m e).toRat = m * 2 ^ e := by
  cases e with
  | ofNat e => simp [dyadic, toRat]
  | negSucc e => simp [dyadic, toRat, zpow_negSucc, div_eq_mul_inv]

theorem toRat_decimal (d : Nat) (e : Int) : (decimal d e).toRat = d * 10 ^ e := by
  cases e with
  | ofNat e => simp [decimal, toRat]
  | negSucc e => simp [decimal, toRat, zpow_negSucc, div_eq_mul_inv]

variable {a b : Ratio}

theorem lt_iff (ha : 0 < a.den) (hb : 0 < b.den) : a.lt b = true ↔ a.toRat < b.toRat := by
  have ha' : (0 : ℚ) < a.den := Nat.cast_pos.mpr ha
  have hb' : (0 : ℚ) < b.den := Nat.cast_pos.mpr hb
  rw [lt, decide_eq_true_eq, toRat, toRat, div_lt_div_iff₀ ha' hb']
  exact_mod_cast Iff.rfl

theorem le_iff (ha : 0 < a.den) (hb : 0 < b.den) : a.le b = true ↔ a.toRat ≤ b.toRat := by
  have ha' : (0 : ℚ) < a.den := Nat.cast_pos.mpr ha
  have hb' : (0 : ℚ) < b.den := Nat.cast_pos.mpr hb
  rw [le, decide_eq_true_eq, toRat, toRat, div_le_div_iff₀ ha' hb']
  exact_mod_cast Iff.rfl

theorem toRat_div (a b : Ratio) : (a.div b).toRat = a.toRat / b.toRat := by
  simp only [div, toRat, Nat.cast_mul]
  rw [div_div_div_eq]

theorem toRat_mul (a b : Ratio) : (a.mul b).toRat = a.toRat * b.toRat := by
  simp only [mul, toRat, Nat.cast_mul]
  rw [div_mul_div_comm]

/-- The comparison by which orders are settled. -/
theorem mul_lt_mul_iff (ha : 0 < a.den) (hb : 0 < b.den) :
    a.num * b.den < a.den * b.num ↔ a.toRat < b.toRat := by
  rw [← lt_iff ha hb, lt, decide_eq_true_eq, Nat.mul_comm a.den]

/-- The powers around numerator and denominator leave two orders for a quotient. -/
theorem zpow_bounds {β : ℚ} (hβ : 0 < β) (ha : 0 < a.den) {m n : Int}
    (hnum : β ^ (m - 1) ≤ a.num ∧ a.num < β ^ m) (hden : β ^ (n - 1) ≤ a.den ∧ a.den < β ^ n) :
    β ^ (m - n - 1) ≤ a.toRat ∧ a.toRat < β ^ (m - n + 1) := by
  have ha' : (0 : ℚ) < a.den := Nat.cast_pos.mpr ha
  rw [toRat, le_div_iff₀ ha', div_lt_iff₀ ha']
  constructor
  · calc β ^ (m - n - 1) * a.den
        ≤ β ^ (m - n - 1) * β ^ n := mul_le_mul_of_nonneg_left hden.2.le (zpow_nonneg hβ.le _)
      _ = β ^ (m - 1) := by
          rw [← zpow_add₀ hβ.ne']
          congr 1
          ring
      _ ≤ a.num := hnum.1
  · calc (a.num : ℚ) < β ^ m := hnum.2
      _ = β ^ (m - n + 1) * β ^ (n - 1) := by
          rw [← zpow_add₀ hβ.ne']
          congr 1
          ring
      _ ≤ β ^ (m - n + 1) * a.den := mul_le_mul_of_nonneg_left hden.1 (zpow_nonneg hβ.le _)

end Ratio

/-! ## Magnitude bits -/

namespace Binary64

/-- The mantissa that magnitude bits are made of. -/
def mantissaOf (n : Nat) : Nat := if n < fractionUnit then n else n % fractionUnit + fractionUnit

/-- The exponent that magnitude bits are made of. -/
def exponentOf (n : Nat) : Int := if n < fractionUnit then -1074 else n / fractionUnit - 1075

/-- The value of magnitude bits. Those of infinity count as the power of two above the
finite ones. -/
def magnitudeValue (n : Nat) : ℚ := mantissaOf n * 2 ^ exponentOf n

theorem toRat_toRatio (x : Binary64) : x.toRatio.toRat = magnitudeValue x.magnitude :=
  Ratio.toRat_dyadic _ _

theorem mantissaOf_lt (n : Nat) : mantissaOf n < 2 * fractionUnit := by
  unfold mantissaOf fractionUnit
  split <;> omega

/-- Mantissa and bits have the same last bit. -/
theorem mantissaOf_mod_two (n : Nat) : mantissaOf n % 2 = n % 2 := by
  unfold mantissaOf fractionUnit
  split <;> omega

theorem mantissaOf_pos {n : Nat} (h : 0 < n) : 0 < mantissaOf n := by
  unfold mantissaOf fractionUnit
  split <;> omega

theorem le_exponentOf (n : Nat) : -1074 ≤ exponentOf n := by
  unfold exponentOf fractionUnit
  split <;> omega

/-- Only at the least exponent are there smaller mantissas. -/
theorem le_mantissaOf {n : Nat} (h : -1074 < exponentOf n) : fractionUnit ≤ mantissaOf n := by
  unfold exponentOf at h
  unfold mantissaOf
  split at h
  · exact absurd h (lt_irrefl _)
  · next hn =>
    rw [if_neg hn]
    exact Nat.le_add_left _ _

/-- The next bits have the next mantissa, or carry into the exponent. -/
theorem succ_cases (n : Nat) :
    (mantissaOf (n + 1) = mantissaOf n + 1 ∧ exponentOf (n + 1) = exponentOf n)
      ∨ (mantissaOf n + 1 = 2 * fractionUnit ∧ mantissaOf (n + 1) = fractionUnit
          ∧ exponentOf (n + 1) = exponentOf n + 1) := by
  unfold mantissaOf exponentOf fractionUnit
  by_cases hlt : n + 1 < 0x10000000000000
  · have hn : n < 0x10000000000000 := by omega
    simp only [if_pos hlt, if_pos hn]
    exact Or.inl ⟨trivial, trivial⟩
  · by_cases hn : n < 0x10000000000000
    · simp only [if_neg hlt, if_pos hn]
      omega
    · simp only [if_neg hlt, if_neg hn]
      omega

/-- The values of neighbours differ by the unit of the last place. -/
theorem magnitudeValue_succ (n : Nat) :
    magnitudeValue (n + 1) = magnitudeValue n + 2 ^ exponentOf n := by
  rw [magnitudeValue, magnitudeValue]
  rcases succ_cases n with ⟨hm, he⟩ | ⟨hm, hm', he⟩
  · rw [hm, he, Nat.cast_succ]
    ring
  · have hsum : (mantissaOf n : ℚ) + 1 = 2 * fractionUnit := by exact_mod_cast hm
    rw [hm', he, zpow_add_one₀ two_ne_zero]
    linear_combination -(2 ^ exponentOf n) * hsum

theorem strictMono_magnitudeValue : StrictMono magnitudeValue :=
  strictMono_nat_of_lt_succ fun n => by
    rw [magnitudeValue_succ]
    exact lt_add_of_pos_right _ (zpow_pos two_pos _)

theorem magnitudeValue_zero : magnitudeValue 0 = 0 := by
  simp [magnitudeValue, mantissaOf, fractionUnit]

theorem magnitudeValue_nonneg (n : Nat) : 0 ≤ magnitudeValue n :=
  magnitudeValue_zero ▸ strictMono_magnitudeValue.monotone (Nat.zero_le n)

/-! ## Doubles -/

variable {x y : Binary64}

/-- The value of a double with its sign. An infinite one counts as the power of two above
the range. -/
def value (x : Binary64) : ℚ :=
  if x.isNegative then -magnitudeValue x.magnitude else magnitudeValue x.magnitude

theorem abs_value (x : Binary64) : |x.value| = magnitudeValue x.magnitude := by
  rw [value]
  split
  · rw [abs_neg, abs_of_nonneg (magnitudeValue_nonneg _)]
  · exact abs_of_nonneg (magnitudeValue_nonneg _)

/-- Sign and magnitude make up the bits. -/
theorem eq_of_magnitude_eq (hsign : x.isNegative = y.isNegative)
    (hmagnitude : x.magnitude = y.magnitude) : x = y := by
  have hx := x.bits.toNat_lt
  have hy := y.bits.toNat_lt
  simp only [isNegative, decide_eq_decide] at hsign
  simp only [magnitude, signUnit] at hsign hmagnitude
  have hbits : x.bits.toNat = y.bits.toNat := by omega
  cases x
  cases y
  exact congrArg mk (UInt64.toNat_inj.mp hbits)

end Binary64

end ApiBaseline.Decimal
