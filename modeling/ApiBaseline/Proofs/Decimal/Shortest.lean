import ApiBaseline.Proofs.Decimal.Nearest
import Mathlib.Algebra.Order.Floor.Semifield
import Mathlib.Data.Rat.Floor

/-!
# The digits that a search finds

The order of a value places it between two powers of ten (`decimalOrder_spec`), so on the
grid of decimals with `n` digits the neighbours of the value have `n` digits, or are the
next power of ten. A grid of 17 digits is finer than the interval of a double is wide: ten
to the sixteenth is more than two to the fifty-third. So one of the neighbours lies in the
interval there (`isSome_onGrid?_seventeen`), and what the search gives always does
(`holds_shortest`).
-/

namespace ApiBaseline.Decimal

/-! ## The order of a value -/

theorem digitCount_le_iff {n k : Nat} (hk : 0 < k) : digitCount n ≤ k ↔ n < 10 ^ k :=
  Nat.length_toDigits_le_iff (by decide) hk

theorem lt_pow_digitCount (n : Nat) : n < 10 ^ digitCount n :=
  (digitCount_le_iff Nat.length_toDigits_pos).mp (le_refl _)

theorem pow_le_of_lt_digitCount {n k : Nat} (hn : 0 < n) (h : k < digitCount n) : 10 ^ k ≤ n := by
  rcases Nat.eq_zero_or_pos k with rfl | hk
  · exact hn
  · exact Nat.le_of_not_lt fun hlt => absurd ((digitCount_le_iff hk).mpr hlt) (Nat.not_le.mpr h)

theorem lt_digitCount_of_pow_le {n k : Nat} (h : 10 ^ k ≤ n) : k < digitCount n := by
  refine Nat.lt_of_not_le fun hle => ?_
  have hk : 0 < k := Nat.lt_of_lt_of_le Nat.length_toDigits_pos hle
  exact absurd ((digitCount_le_iff hk).mp hle) (Nat.not_lt.mpr h)

theorem bounds_digitCount {n : Nat} (hn : 0 < n) :
    (10 : ℚ) ^ ((digitCount n : Int) - 1) ≤ n ∧ (n : ℚ) < 10 ^ (digitCount n : Int) := by
  obtain ⟨k, hk⟩ : ∃ k, digitCount n = k + 1 :=
    Nat.exists_eq_succ_of_ne_zero Nat.length_toDigits_pos.ne'
  have hlow : 10 ^ k ≤ n := pow_le_of_lt_digitCount hn (by omega)
  have hhigh := lt_pow_digitCount n
  rw [hk] at hhigh ⊢
  rw [Nat.cast_succ, add_sub_cancel_right, ← Nat.cast_succ, zpow_natCast, zpow_natCast]
  exact ⟨by exact_mod_cast hlow, by exact_mod_cast hhigh⟩

/-- The value lies between the power of ten of its order and the one before. -/
theorem decimalOrder_spec {r : Ratio} (hnum : 0 < r.num) (hden : 0 < r.den) :
    (10 : ℚ) ^ (decimalOrder r - 1) ≤ r.toRat ∧ r.toRat < 10 ^ decimalOrder r := by
  obtain ⟨hlow, hhigh⟩ :=
    Ratio.zpow_bounds (by norm_num) hden (bounds_digitCount hnum) (bounds_digitCount hden)
  simp only [decimalOrder, Ratio.mul_lt_mul_iff hden (Ratio.den_decimal_pos _ _),
    Ratio.toRat_decimal, Nat.cast_one, one_mul]
  split
  · next hlt => exact ⟨hlow, hlt⟩
  · next hlt =>
    rw [add_sub_cancel_right]
    exact ⟨not_lt.mp hlt, hhigh⟩

/-! ## One grid -/

namespace Binary64

variable {x : Binary64} {order : Int} {count n : Nat}

/-- The greatest decimal of the grid that does not exceed the value. -/
def gridFloor (x : Binary64) (order : Int) (count : Nat) : Nat :=
  ⌊magnitudeValue x.magnitude / 10 ^ (order - count)⌋₊

theorem gridFloor_eq (x : Binary64) (order : Int) (count : Nat) :
    (x.toRatio.div (Ratio.decimal 1 (order - count))).num
        / (x.toRatio.div (Ratio.decimal 1 (order - count))).den
      = x.gridFloor order count := by
  have hscaled := Ratio.toRat_div x.toRatio (Ratio.decimal 1 (order - count))
  rw [Ratio.toRat_decimal, Nat.cast_one, one_mul, toRat_toRatio, Ratio.toRat] at hscaled
  rw [gridFloor, ← hscaled, Nat.floor_div_eq_div]

theorem contains_decimal (n : Nat) (unit : Int) :
    x.interval.contains (Ratio.decimal n unit) = true ↔ x.interval.Holds (n * 10 ^ unit) := by
  rw [contains_iff (Ratio.den_decimal_pos n unit), Ratio.toRat_decimal]

/-- What a grid gives is a neighbour of the value and lies in the interval. -/
theorem onGrid?_eq_some (h : x.onGrid? order count = some n) :
    (n = x.gridFloor order count ∨ n = x.gridFloor order count + 1)
      ∧ x.interval.Holds (n * 10 ^ (order - count)) := by
  rw [← contains_decimal]
  simp only [onGrid?, gridFloor_eq] at h
  split at h
  · next hlow hhigh =>
    split at h
    · exact Option.some.inj h ▸ ⟨Or.inl rfl, hlow⟩
    · exact Option.some.inj h ▸ ⟨Or.inr rfl, hhigh⟩
  · next hlow _ => exact Option.some.inj h ▸ ⟨Or.inl rfl, hlow⟩
  · next _ hhigh => exact Option.some.inj h ▸ ⟨Or.inr rfl, hhigh⟩
  · cases h

/-- A grid gives a decimal if one of the neighbours of the value lies in the interval. -/
theorem isSome_onGrid? (h : x.interval.Holds (x.gridFloor order count * 10 ^ (order - count))
      ∨ x.interval.Holds ((x.gridFloor order count + 1 : Nat) * 10 ^ (order - count))) :
    (x.onGrid? order count).isSome = true := by
  rw [← contains_decimal, ← contains_decimal] at h
  simp only [onGrid?, gridFloor_eq]
  split
  · split <;> rfl
  · rfl
  · rfl
  · next hlow hhigh =>
    rw [hlow, hhigh] at h
    exact absurd h (by decide)

theorem gridFloor_le (x : Binary64) (order : Int) (count : Nat) :
    x.gridFloor order count * 10 ^ (order - count) ≤ magnitudeValue x.magnitude := by
  have hunit : (0 : ℚ) < 10 ^ (order - count) := zpow_pos (by norm_num) _
  rw [← le_div_iff₀ hunit]
  exact Nat.floor_le (div_nonneg (magnitudeValue_nonneg _) hunit.le)

theorem gridFloor_succ_mul (x : Binary64) (order : Int) (count : Nat) :
    ((x.gridFloor order count + 1 : Nat) : ℚ) * 10 ^ (order - count)
      = x.gridFloor order count * 10 ^ (order - count) + 10 ^ (order - count) := by
  rw [Nat.cast_succ, add_one_mul]

theorem lt_gridFloor_succ (x : Binary64) (order : Int) (count : Nat) :
    magnitudeValue x.magnitude < (x.gridFloor order count + 1 : Nat) * 10 ^ (order - count) := by
  rw [← div_lt_iff₀ (zpow_pos (by norm_num) _), Nat.cast_succ]
  exact Nat.lt_floor_add_one _

/-- On a grid with `count` digits the neighbours of the value have as many. -/
theorem gridFloor_bounds (hlow : (10 : ℚ) ^ (order - 1) ≤ magnitudeValue x.magnitude)
    (hhigh : magnitudeValue x.magnitude < 10 ^ order) (hcount : 0 < count) :
    10 ^ (count - 1) ≤ x.gridFloor order count ∧ x.gridFloor order count < 10 ^ count := by
  have hunit : (0 : ℚ) < 10 ^ (order - count) := zpow_pos (by norm_num) _
  have hpow : ∀ k : Nat,
      ((10 ^ k : Nat) : ℚ) * 10 ^ (order - count) = 10 ^ (k + order - count) := by
    intro k
    rw [Nat.cast_pow, Nat.cast_ofNat, ← zpow_natCast, ← zpow_add₀ (by norm_num)]
    congr 1
    ring
  constructor
  · refine Nat.le_floor ((le_div_iff₀ hunit).mpr ?_)
    have hexponent : ((count - 1 : Nat) : Int) + order - count = order - 1 := by omega
    rwa [hpow, hexponent]
  · refine (Nat.floor_lt (div_nonneg (magnitudeValue_nonneg _) hunit.le)).mpr ?_
    rw [div_lt_iff₀ hunit, hpow, add_sub_cancel_left]
    exact hhigh

/-- **Seventeen digits are enough.** Between two neighbours of 17 digits lies less than the
unit of the last place, and less than half of it if the mantissa is the least one. -/
theorem isSome_onGrid?_seventeen {k : Nat} (h : x.magnitude = k + 1)
    (hlow : (10 : ℚ) ^ (order - 1) ≤ magnitudeValue x.magnitude) :
    (x.onGrid? order 17).isSome = true := by
  refine isSome_onGrid? ?_
  have hfloor := x.gridFloor_le order 17
  have hceil := x.lt_gridFloor_succ order 17
  rw [gridFloor_succ_mul] at hceil ⊢
  have hgrid : (10 : ℚ) ^ (order - 1) = 10 ^ (order - (17 : Nat)) * 10 ^ 16 := by
    rw [← zpow_natCast (10 : ℚ) 16, ← zpow_add₀ (by norm_num)]
    congr 1
    push_cast
    ring
  have hulp : (0 : ℚ) < 2 ^ exponentOf k := zpow_pos two_pos _
  have hhigh := x.high_interval
  have hlow' := low_interval h
  have hprevious := magnitudeValue_succ k
  rw [h, magnitudeValue_succ (k + 1)] at hhigh
  rw [h] at hlow hfloor hceil
  rw [hgrid] at hlow
  generalize (x.gridFloor order 17 : ℚ) * 10 ^ (order - (17 : Nat)) = floor at *
  generalize (10 : ℚ) ^ (order - (17 : Nat)) = unit at *
  have hunit : (fractionUnit : ℚ) = 4503599627370496 := by norm_num [fractionUnit]
  rcases succ_cases k with ⟨-, he⟩ | ⟨-, hm, he⟩
  · have hmantissa : (mantissaOf (k + 1) : ℚ) < 2 * fractionUnit := by
      exact_mod_cast mantissaOf_lt (k + 1)
    have hvalue : magnitudeValue (k + 1) < 2 * fractionUnit * 2 ^ exponentOf k := by
      rw [magnitudeValue, he]
      exact mul_lt_mul_of_pos_right hmantissa hulp
    rw [he] at hhigh
    rw [hunit] at hvalue
    by_cases hnear : magnitudeValue (k + 1) - floor < 2 ^ exponentOf k / 2
    · exact Or.inl (Interval.holds_of_lt (by linarith) (by linarith))
    · exact Or.inr (Interval.holds_of_lt (by linarith) (by linarith))
  · have hvalue : magnitudeValue (k + 1) = fractionUnit * (2 ^ exponentOf k * 2) := by
      rw [magnitudeValue, hm, he, zpow_add_one₀ two_ne_zero]
    rw [he, zpow_add_one₀ two_ne_zero] at hhigh
    rw [hunit] at hvalue
    exact Or.inr (Interval.holds_of_lt (by linarith) (by linarith))

end Binary64

/-! ## The search -/

namespace Digits

/-- The number that the digits stand for. -/
def toRat (d : Digits) : ℚ := d.value * 10 ^ (d.point - digitCount d.value)

/-- A decimal of a grid, which has a digit more if it is the next power of ten. -/
theorem toRat_of_grid {n count : Nat} {order : Int} (hcount : 0 < count)
    (hlow : 10 ^ (count - 1) ≤ n) (hhigh : n ≤ 10 ^ count) :
    toRat ⟨n, if digitCount n ≤ count then order else order + 1⟩ = n * 10 ^ (order - count) := by
  have hmore := lt_digitCount_of_pow_le hlow
  have hless : digitCount n ≤ count + 1 :=
    (digitCount_le_iff (Nat.succ_pos _)).mpr
      (Nat.lt_of_le_of_lt hhigh (Nat.pow_lt_pow_right (by decide) (Nat.lt_succ_self _)))
  have hpoint : (if digitCount n ≤ count then order else order + 1) - (digitCount n : Int)
      = order - count := by
    split <;> omega
  rw [toRat, hpoint]

end Digits

namespace Binary64

variable {x : Binary64} {order : Int}

/-- The search ends on the first grid that gives a decimal. -/
theorem exists_searchGrids (fuel count : Nat) {limit : Nat} (hle : count ≤ limit)
    (hlimit : limit < count + fuel) (h : (x.onGrid? order limit).isSome = true) :
    ∃ k n, count ≤ k ∧ x.onGrid? order k = some n
      ∧ x.searchGrids order fuel count = ⟨n, if digitCount n ≤ k then order else order + 1⟩ := by
  induction fuel generalizing count with
  | zero => omega
  | succ fuel ih =>
      rw [searchGrids]
      cases hgrid : x.onGrid? order count with
      | some n =>
          refine ⟨count, n, le_refl _, hgrid, ?_⟩
          dsimp only
          split <;> rfl
      | none =>
          have hne : count ≠ limit := by
            rintro rfl
            rw [hgrid] at h
            cases h
          obtain ⟨k, n, hk, hsome, heq⟩ := ih (count + 1) (by omega) (by omega)
          exact ⟨k, n, by omega, hsome, heq⟩

/-- The shortest digits lie in the interval, and so are read back. -/
theorem holds_shortest {k : Nat} (h : x.magnitude = k + 1) :
    0 < x.shortest.value ∧ x.interval.Holds x.shortest.toRat := by
  have hnum : 0 < x.toRatio.num :=
    Ratio.num_dyadic_pos (mantissaOf_pos (h ▸ Nat.succ_pos k)) _
  obtain ⟨hlow, hhigh⟩ := decimalOrder_spec hnum (Ratio.den_dyadic_pos _ _)
  rw [toRat_toRatio] at hlow hhigh
  obtain ⟨count, n, hcount, hsome, heq⟩ :=
    exists_searchGrids 17 1 (by decide) (by decide) (isSome_onGrid?_seventeen h hlow)
  obtain ⟨hn, hholds⟩ := onGrid?_eq_some hsome
  obtain ⟨hfloor, hceil⟩ := gridFloor_bounds hlow hhigh hcount
  have hbounds : 10 ^ (count - 1) ≤ n ∧ n ≤ 10 ^ count := by
    rcases hn with rfl | rfl
    · exact ⟨hfloor, hceil.le⟩
    · exact ⟨hfloor.trans (Nat.le_succ _), hceil⟩
  rw [shortest, heq, Digits.toRat_of_grid hcount hbounds.1 hbounds.2]
  exact ⟨Nat.lt_of_lt_of_le (Nat.pow_pos (by decide)) hbounds.1, hholds⟩

end Binary64

end ApiBaseline.Decimal
