import ApiBaseline.Proofs.Decimal.Value

/-!
# Rounding and powers of two

The binary order of a quotient places it between two powers of two (`binaryOrder_spec`).
At that order it is rounded to a mantissa of 53 bits, and rounding does not pass a whole
number. So what is at least a power of two is not rounded below it
(`zpow_le_abs_value_nearest`).
-/

namespace ApiBaseline.Decimal

theorem bounds_log2 {n : Nat} (hn : 0 < n) :
    (2 : ℚ) ^ ((Nat.log2 n + 1 : Int) - 1) ≤ n ∧ (n : ℚ) < 2 ^ (Nat.log2 n + 1 : Int) := by
  have hlow := Nat.log2_self_le hn.ne'
  have hhigh : n < 2 ^ (Nat.log2 n + 1) := Nat.lt_log2_self
  rw [add_sub_cancel_right, ← Nat.cast_succ, zpow_natCast, zpow_natCast]
  exact ⟨by exact_mod_cast hlow, by exact_mod_cast hhigh⟩

theorem Ratio.le_roundEven {r : Ratio} (hden : 0 < r.den) {n : Nat} (h : (n : ℚ) ≤ r.toRat) :
    n ≤ r.roundEven := by
  have hfloor : n ≤ r.num / r.den := by
    rw [toRat, le_div_iff₀ (Nat.cast_pos.mpr hden)] at h
    rw [Nat.le_div_iff_mul_le hden]
    exact_mod_cast h
  simp only [roundEven]
  split_ifs <;> omega

namespace Binary64

variable {r : Ratio}

/-- The quotient lies between the power of two of its order and the next one. -/
theorem binaryOrder_spec (hnum : 0 < r.num) (hden : 0 < r.den) :
    (2 : ℚ) ^ binaryOrder r ≤ r.toRat ∧ r.toRat < 2 ^ (binaryOrder r + 1) := by
  obtain ⟨hlow, hhigh⟩ :=
    Ratio.zpow_bounds two_pos hden (bounds_log2 hnum) (bounds_log2 hden)
  rw [add_sub_add_right_eq_sub] at hlow hhigh
  have hguess := Ratio.mul_lt_mul_iff (a := r) hden (Ratio.den_dyadic_pos 1
    ((Nat.log2 r.num : Int) - Nat.log2 r.den))
  rw [Ratio.toRat_dyadic, Nat.cast_one, one_mul] at hguess
  simp only [binaryOrder, hguess]
  split
  · next hlt => exact ⟨hlow, by rwa [sub_add_cancel]⟩
  · next hlt => exact ⟨not_lt.mp hlt, hhigh⟩

theorem le_binaryOrder (hnum : 0 < r.num) (hden : 0 < r.den) {k : Int}
    (h : 2 ^ k ≤ r.toRat) : k ≤ binaryOrder r := by
  have hlt := h.trans_lt (binaryOrder_spec hnum hden).2
  exact Int.lt_add_one_iff.mp ((zpow_lt_zpow_iff_right₀ one_lt_two).mp hlt)

/-- The least mantissa of 53 bits is a power of two at every exponent. -/
theorem magnitudeValue_power (n : Nat) :
    magnitudeValue (n * fractionUnit + fractionUnit) = 2 ^ (n - 1022 : Int) := by
  have hunit : (fractionUnit : ℚ) = 2 ^ (52 : Int) := by norm_num [fractionUnit]
  have hnot : ¬ n * fractionUnit + fractionUnit < fractionUnit :=
    Nat.not_lt.mpr (Nat.le_add_left _ _)
  have hmantissa : mantissaOf (n * fractionUnit + fractionUnit) = fractionUnit := by
    rw [mantissaOf, if_neg hnot, Nat.add_mod_right, Nat.mul_mod_left, Nat.zero_add]
  have hexponent : exponentOf (n * fractionUnit + fractionUnit) = n - 1074 := by
    rw [exponentOf, if_neg hnot]
    unfold fractionUnit
    omega
  have hsum : (52 : Int) + (n - 1074) = n - 1022 := by omega
  rw [magnitudeValue, hmantissa, hexponent, hunit, ← zpow_add₀ two_ne_zero, hsum]

theorem zpow_le_nearestMagnitude (hden : 0 < r.den) {k : Int} (hk : -1022 ≤ k)
    (h : 2 ^ k ≤ r.toRat) : 2 ^ k ≤ magnitudeValue (nearestMagnitude r) := by
  have hpos : 0 < r.toRat := (zpow_pos two_pos k).trans_le h
  have hnum : 0 < r.num := by
    rw [Ratio.toRat, div_pos_iff_of_pos_right (Nat.cast_pos.mpr hden)] at hpos
    exact_mod_cast hpos
  have hle := le_binaryOrder hnum hden h
  obtain ⟨hlow, -⟩ := binaryOrder_spec hnum hden
  rw [nearestMagnitude, if_neg hnum.ne']
  dsimp only
  generalize binaryOrder r = order at hle hlow
  have hexponent : max (order - 52) (-1074) = order - 52 := by omega
  rw [hexponent]
  have hmantissa : fractionUnit ≤ (r.div (Ratio.dyadic 1 (order - 52))).roundEven := by
    have hunit : (fractionUnit : ℚ) = 2 ^ (52 : Int) := by norm_num [fractionUnit]
    refine Ratio.le_roundEven (Nat.mul_pos hden (Ratio.num_dyadic_pos Nat.one_pos _)) ?_
    rw [Ratio.toRat_div, Ratio.toRat_dyadic, Nat.cast_one, one_mul,
      le_div_iff₀ (zpow_pos two_pos _), hunit, ← zpow_add₀ two_ne_zero, add_sub_cancel]
    exact hlow
  calc (2 : ℚ) ^ k ≤ 2 ^ (((order - 52 + 1074).toNat : Int) - 1022) :=
        zpow_le_zpow_right₀ one_lt_two.le (by omega)
    _ = magnitudeValue ((order - 52 + 1074).toNat * fractionUnit + fractionUnit) :=
        (magnitudeValue_power _).symm
    _ ≤ _ := strictMono_magnitudeValue.monotone (Nat.add_le_add_left hmantissa _)

/-! ## Doubles -/

theorem magnitude_ofMagnitude (negative : Bool) {n : Nat} (h : n < signUnit) :
    (ofMagnitude negative n).magnitude = n := by
  have hbits : ∀ m, m < 2 * signUnit → (UInt64.ofNat m).toNat = m := fun m hm =>
    UInt64.toNat_ofNat_of_lt' hm
  rw [ofMagnitude, magnitude]
  cases negative with
  | false => rw [if_neg Bool.false_ne_true, hbits n (by omega), Nat.mod_eq_of_lt h]
  | true => rw [if_pos rfl, hbits _ (by omega), Nat.add_mod_left, Nat.mod_eq_of_lt h]

theorem magnitude_neg (x : Binary64) : x.neg.magnitude = x.magnitude :=
  magnitude_ofMagnitude _ (Nat.mod_lt _ (by decide))

theorem magnitudeValue_infinity : magnitudeValue infinityBits = 2 ^ (1024 : Int) :=
  magnitudeValue_power 2046

section

variable {k : Int}

theorem zpow_le_abs_value_infinity (hk : k ≤ 1024) (negative : Bool) :
    2 ^ k ≤ |(infinity negative).value| := by
  rw [abs_value, infinity, magnitude_ofMagnitude negative (by decide), magnitudeValue_infinity]
  exact zpow_le_zpow_right₀ one_lt_two.le hk

/-- Rounding does not go below a power of two. -/
theorem zpow_le_abs_value_nearest (hden : 0 < r.den) (hk : -1022 ≤ k) (hk' : k ≤ 1024)
    (h : 2 ^ k ≤ r.toRat) (negative : Bool) : 2 ^ k ≤ |(nearest negative r).value| := by
  have hlt : min (nearestMagnitude r) infinityBits < signUnit :=
    (Nat.min_le_right _ _).trans_lt (by decide)
  rw [abs_value, nearest, magnitude_ofMagnitude negative hlt,
    strictMono_magnitudeValue.monotone.map_min, magnitudeValue_infinity]
  exact le_min (zpow_le_nearestMagnitude hden hk h) (zpow_le_zpow_right₀ one_lt_two.le hk')

theorem zpow_le_abs_value_ofDecimal {digits exponent : Nat} (hk : -1022 ≤ k) (hk' : k ≤ 1024)
    (h : 2 ^ k ≤ (digits * 10 ^ exponent : ℚ)) (negative : Bool) :
    2 ^ k ≤ |(ofDecimal negative digits exponent).value| := by
  have hdigits : digits ≠ 0 := by
    rintro rfl
    rw [Nat.cast_zero, zero_mul] at h
    exact absurd h (not_le.mpr (zpow_pos two_pos k))
  simp only [ofDecimal]
  split_ifs with hsmall hlarge
  · simp only [Bool.or_eq_true, decide_eq_true_eq] at hsmall
    omega
  · exact zpow_le_abs_value_infinity hk' negative
  · refine zpow_le_abs_value_nearest (Ratio.den_decimal_pos _ _) hk hk' ?_ negative
    rwa [Ratio.toRat_decimal, zpow_natCast]

theorem zpow_le_abs_value_scaleUp {x y : Binary64} {j : Int} (hlow : -1022 ≤ j + k)
    (hhigh : j + k ≤ 1024) (hx : 2 ^ j ≤ |x.value|) (hy : 2 ^ k ≤ |y.value|) :
    2 ^ (j + k) ≤ |(x.scaleUp y).value| := by
  have hden : 0 < (x.toRatio.mul y.toRatio).den :=
    Nat.mul_pos (Ratio.den_dyadic_pos _ _) (Ratio.den_dyadic_pos _ _)
  refine zpow_le_abs_value_nearest hden hlow hhigh ?_ _
  rw [Ratio.toRat_mul, toRat_toRatio, toRat_toRatio, ← abs_value, ← abs_value,
    zpow_add₀ two_ne_zero]
  exact mul_le_mul hx hy (zpow_nonneg two_pos.le k) (abs_nonneg _)

end

end Binary64

end ApiBaseline.Decimal
