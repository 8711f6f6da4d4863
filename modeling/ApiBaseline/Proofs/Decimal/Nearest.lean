import ApiBaseline.Proofs.Decimal.Value
import Mathlib.Tactic.Linarith

/-!
# The nearest double

A double is nearest to a number if no other one is nearer, and if its mantissa is even in
case another one is as near (`IsNearest`). With a sign there is one nearest double to a
number (`eq_of_isNearest`).

The ends of the interval of a double lie halfway to its neighbours, whether or not these
have the same exponent. So what lies in the interval of a double has it as its nearest one
(`isNearest_of_holds`), the ends included exactly when the mantissa is even.
-/

namespace ApiBaseline.Decimal

/-! ## Intervals -/

namespace Interval

/-- The number lies in the interval. -/
def Holds (i : Interval) (q : ℚ) : Prop :=
  if i.closed then i.low.toRat ≤ q ∧ q ≤ i.high.toRat else i.low.toRat < q ∧ q < i.high.toRat

variable {i : Interval} {q : ℚ}

theorem holds_of_lt (hlow : i.low.toRat < q) (hhigh : q < i.high.toRat) : i.Holds q := by
  unfold Holds
  split
  · exact ⟨hlow.le, hhigh.le⟩
  · exact ⟨hlow, hhigh⟩

theorem Holds.le (h : i.Holds q) : i.low.toRat ≤ q ∧ q ≤ i.high.toRat := by
  unfold Holds at h
  split at h
  · exact h
  · exact ⟨h.1.le, h.2.le⟩

/-- Only a closed interval holds its ends. -/
theorem Holds.closed (h : i.Holds q) (hend : q = i.low.toRat ∨ q = i.high.toRat) :
    i.closed = true := by
  unfold Holds at h
  split at h
  · assumption
  · rcases hend with rfl | rfl
    · exact absurd h.1 (lt_irrefl _)
    · exact absurd h.2 (lt_irrefl _)

end Interval

namespace Binary64

variable {x y : Binary64}

theorem contains_iff {r : Ratio} (hr : 0 < r.den) :
    x.interval.contains r = true ↔ x.interval.Holds r.toRat := by
  have hlow : 0 < x.interval.low.den := Ratio.den_dyadic_pos _ _
  have hhigh : 0 < x.interval.high.den := Ratio.den_dyadic_pos _ _
  unfold Interval.contains Interval.Holds
  split <;> simp only [Bool.and_eq_true, Ratio.le_iff, Ratio.lt_iff, hlow, hhigh, hr]

theorem closed_interval (x : Binary64) :
    x.interval.closed = true ↔ x.magnitude % 2 = 0 := by
  rw [← mantissaOf_mod_two]
  exact beq_iff_eq

/-- The upper end lies halfway to the next double. -/
theorem high_interval (x : Binary64) : x.interval.high.toRat
    = (magnitudeValue x.magnitude + magnitudeValue (x.magnitude + 1)) / 2 := by
  have hhigh : x.interval.high = Ratio.dyadic (4 * mantissaOf x.magnitude + 2)
      (exponentOf x.magnitude - 2) := rfl
  rw [hhigh, Ratio.toRat_dyadic, magnitudeValue_succ, magnitudeValue, zpow_sub₀ two_ne_zero]
  push_cast
  ring

/-- The lower end lies halfway to the previous double, which has another exponent if the
mantissa is the least one. -/
theorem low_interval {n : Nat} (h : x.magnitude = n + 1) : x.interval.low.toRat
    = (magnitudeValue n + magnitudeValue (n + 1)) / 2 := by
  have hlow : x.interval.low = Ratio.dyadic (4 * mantissaOf x.magnitude
      - if mantissaOf x.magnitude = fractionUnit && -1074 < exponentOf x.magnitude then 1 else 2)
      (exponentOf x.magnitude - 2) := rfl
  have hsucc := magnitudeValue_succ n
  rw [hlow, Ratio.toRat_dyadic, h]
  rcases succ_cases n with ⟨hm, he⟩ | ⟨hm, hm', he⟩
  · have hleast : ¬ (mantissaOf (n + 1) = fractionUnit ∧ -1074 < exponentOf (n + 1)) := by
      rintro ⟨hunit, hexponent⟩
      have hle := le_mantissaOf (he ▸ hexponent)
      omega
    rw [if_neg (by simpa using hleast), hm, he, Nat.cast_sub (by omega), hsucc, magnitudeValue,
      zpow_sub₀ two_ne_zero]
    push_cast
    ring
  · have hexponent : -1074 < exponentOf (n + 1) := by
      have hle := le_exponentOf n
      omega
    have hsum : (mantissaOf n : ℚ) + 1 = 2 * fractionUnit := by exact_mod_cast hm
    have hpow : exponentOf n + 1 - 2 = exponentOf n - 1 := by omega
    rw [if_pos (by simpa using ⟨hm', hexponent⟩), hm', he, hpow, Nat.cast_sub (by decide), hsucc,
      magnitudeValue, zpow_sub_one₀ two_ne_zero]
    push_cast
    linear_combination -(2 ^ exponentOf n) * hsum

/-! ## Nearest values -/

/-- What lies in the interval of a double is no nearer to other magnitude bits. If others
are as near, those of the double are even and the others odd. -/
theorem nearest_of_holds {n : Nat} (h : x.magnitude = n + 1) {q : ℚ} (hq : x.interval.Holds q)
    (k : Nat) :
    |magnitudeValue x.magnitude - q| ≤ |magnitudeValue k - q|
      ∧ (|magnitudeValue k - q| = |magnitudeValue x.magnitude - q| → k ≠ x.magnitude →
          x.magnitude % 2 = 0 ∧ k % 2 = 1) := by
  obtain ⟨hlow, hhigh⟩ := hq.le
  have hends : q = x.interval.low.toRat ∨ q = x.interval.high.toRat → (n + 1) % 2 = 0 :=
    fun hend => h ▸ x.closed_interval.mp (hq.closed hend)
  rw [low_interval h] at hlow hends
  rw [high_interval, h] at hhigh hends
  rw [h]
  rcases Nat.lt_trichotomy k (n + 1) with hlt | rfl | hgt
  · have hk : magnitudeValue k ≤ magnitudeValue n :=
      strictMono_magnitudeValue.monotone (Nat.lt_succ_iff.mp hlt)
    have hstep := strictMono_magnitudeValue (Nat.lt_succ_self n)
    have hfar : |magnitudeValue k - q| = q - magnitudeValue k := by
      rw [abs_sub_comm, abs_of_nonneg]
      linarith
    rw [hfar]
    refine ⟨abs_le.mpr ⟨by linarith, by linarith⟩, fun htie _ => ?_⟩
    -- The number lies halfway, and the others are the bits just below.
    have hnear : magnitudeValue (n + 1) - q = q - magnitudeValue k := by
      rcases abs_cases (magnitudeValue (n + 1) - q) with ⟨habs, -⟩ | ⟨habs, -⟩ <;> linarith
    obtain rfl : k = n := strictMono_magnitudeValue.injective (by linarith)
    have heven := hends (Or.inl (by linarith))
    omega
  · exact ⟨le_refl _, fun _ hne => absurd rfl hne⟩
  · have hk : magnitudeValue (n + 1 + 1) ≤ magnitudeValue k :=
      strictMono_magnitudeValue.monotone hgt
    have hstep := strictMono_magnitudeValue (Nat.lt_succ_self (n + 1))
    have hfar : |magnitudeValue k - q| = magnitudeValue k - q := abs_of_nonneg (by linarith)
    rw [hfar]
    refine ⟨abs_le.mpr ⟨by linarith, by linarith⟩, fun htie _ => ?_⟩
    have hnear : q - magnitudeValue (n + 1) = magnitudeValue k - q := by
      rcases abs_cases (magnitudeValue (n + 1) - q) with ⟨habs, -⟩ | ⟨habs, -⟩ <;> linarith
    obtain rfl : k = n + 1 + 1 := strictMono_magnitudeValue.injective (by linarith)
    have heven := hends (Or.inr (by linarith))
    omega

/-- No double is nearer to the number, and if one of another value is as near, the mantissa
is even. -/
structure IsNearest (x : Binary64) (r : ℚ) : Prop where
  le : ∀ y : Binary64, y.isNaN = false → |x.value - r| ≤ |y.value - r|
  even : ∀ y : Binary64, y.isNaN = false → y.value ≠ x.value →
    |y.value - r| = |x.value - r| → x.mantissa % 2 = 0

/-- A number with the sign of a double. -/
def withSign (negative : Bool) (q : ℚ) : ℚ := if negative then -q else q

theorem value_eq (x : Binary64) : x.value = withSign x.isNegative (magnitudeValue x.magnitude) :=
  rfl

theorem abs_withSign (negative : Bool) {q : ℚ} (hq : 0 ≤ q) : |withSign negative q| = q := by
  cases negative
  · exact abs_of_nonneg hq
  · exact (abs_neg q).trans (abs_of_nonneg hq)

theorem abs_withSign_sub (negative : Bool) (a q : ℚ) :
    |withSign negative a - withSign negative q| = |a - q| := by
  cases negative
  · rfl
  · rw [withSign, withSign, if_pos rfl, if_pos rfl, ← abs_neg]
    congr 1
    ring

/-- The distance of the magnitudes is not more than that of the numbers. -/
theorem abs_magnitudeValue_sub_le (y : Binary64) (negative : Bool) {q : ℚ} (hq : 0 ≤ q) :
    |magnitudeValue y.magnitude - q| ≤ |y.value - withSign negative q| := by
  have htriangle := abs_abs_sub_abs_le y.value (withSign negative q)
  rwa [abs_value, abs_withSign negative hq] at htriangle

/-- Across zero the magnitudes add up. -/
theorem abs_withSign_not_sub (negative : Bool) {a q : ℚ} (ha : 0 ≤ a) (hq : 0 ≤ q) :
    |withSign (!negative) a - withSign negative q| = a + q := by
  cases negative
  · rw [withSign, withSign, Bool.not_false, if_pos rfl, if_neg Bool.false_ne_true,
      abs_of_nonpos (by linarith)]
    ring
  · rw [withSign, withSign, Bool.not_true, if_pos rfl, if_neg Bool.false_ne_true,
      abs_of_nonneg (by linarith)]
    ring

theorem mantissa_mod_two (x : Binary64) : x.mantissa % 2 = x.magnitude % 2 :=
  mantissaOf_mod_two x.magnitude

theorem isNaN_of_isFinite (hx : x.isFinite = true) : x.isNaN = false := by
  simp only [isFinite, isNaN, decide_eq_true_eq, decide_eq_false_iff_not] at hx ⊢
  omega

/-- The nearest double to zero with a sign is the zero with that sign. -/
theorem isNearest_zero (h : x.magnitude = 0) : x.IsNearest 0 := by
  have hvalue : x.value = 0 := by
    rw [value_eq, h, magnitudeValue_zero, withSign, neg_zero, ite_self]
  rw [← hvalue]
  refine ⟨fun y _ => ?_, fun y _ hne htie => ?_⟩
  · rw [sub_self, abs_zero]
    exact abs_nonneg _
  · rw [sub_self, abs_zero, abs_eq_zero, sub_eq_zero] at htie
    exact absurd htie hne

theorem eq_of_isNearest_zero (h : x.magnitude = 0) (hx : x.isFinite = true) {y : Binary64}
    (hsign : y.isNegative = x.isNegative) (hy : y.IsNearest 0) : y = x := by
  refine eq_of_magnitude_eq hsign ?_
  have hle := hy.le x (isNaN_of_isFinite hx)
  rw [sub_zero, sub_zero, abs_value, abs_value, h] at hle
  exact Nat.le_zero.mp (strictMono_magnitudeValue.le_iff_le.mp hle) ▸ h.symm

section

variable {n : Nat} (h : x.magnitude = n + 1) {q : ℚ} (hq : x.interval.Holds q)

include h hq

theorem pos_of_holds : 0 < q := by
  have hlow := hq.le.1
  rw [low_interval h] at hlow
  have hstep := strictMono_magnitudeValue (Nat.lt_succ_self n)
  have hnonneg := magnitudeValue_nonneg n
  linarith

/-- **The nearest double to what lies in an interval.** -/
theorem isNearest_of_holds : x.IsNearest (withSign x.isNegative q) := by
  have hpos := pos_of_holds h hq
  have hsame : |x.value - withSign x.isNegative q| = |magnitudeValue x.magnitude - q| :=
    abs_withSign_sub _ _ _
  refine ⟨fun y _ => ?_, fun y _ hne htie => ?_⟩
  · rw [hsame]
    exact (nearest_of_holds h hq _).1.trans (abs_magnitudeValue_sub_le y _ hpos.le)
  · rw [hsame] at htie
    have htie' : |magnitudeValue y.magnitude - q| = |magnitudeValue x.magnitude - q| :=
      le_antisymm (htie ▸ abs_magnitudeValue_sub_le y _ hpos.le) (nearest_of_holds h hq _).1
    by_cases hmagnitude : y.magnitude = x.magnitude
    · have hsign : y.isNegative = !x.isNegative := by
        refine Bool.eq_not_of_ne fun hsign => ?_
        exact hne (congrArg value (eq_of_magnitude_eq hsign hmagnitude))
      -- The number lies between the two, and nearer to the one of its sign.
      rw [value_eq, hsign, hmagnitude, abs_withSign_not_sub _ (magnitudeValue_nonneg _) hpos.le,
        h] at htie
      have hstep := strictMono_magnitudeValue (Nat.succ_pos n)
      rw [magnitudeValue_zero] at hstep
      rcases abs_cases (magnitudeValue (n + 1) - q) with ⟨habs, -⟩ | ⟨habs, -⟩ <;> linarith
    · rw [mantissa_mod_two]
      exact ((nearest_of_holds h hq _).2 htie' hmagnitude).1

/-- There is no other one with its sign. -/
theorem eq_of_isNearest (hx : x.isFinite = true) {y : Binary64} (hfinite : y.isFinite = true)
    (hsign : y.isNegative = x.isNegative) (hy : y.IsNearest (withSign x.isNegative q)) :
    y = x := by
  refine eq_of_magnitude_eq hsign ?_
  by_contra hmagnitude
  have htie : |y.value - withSign x.isNegative q| = |x.value - withSign x.isNegative q| :=
    le_antisymm (hy.le x (isNaN_of_isFinite hx))
      ((isNearest_of_holds h hq).le y (isNaN_of_isFinite hfinite))
  have heven := hy.even x (isNaN_of_isFinite hx) ?_ htie.symm
  · rw [value_eq, value_eq, hsign, abs_withSign_sub, abs_withSign_sub] at htie
    have hodd := ((nearest_of_holds h hq _).2 htie hmagnitude).2
    rw [mantissa_mod_two] at heven
    omega
  · intro hvalue
    have habs := congrArg abs hvalue
    rw [abs_value, abs_value] at habs
    exact hmagnitude (strictMono_magnitudeValue.injective habs).symm

end

end Binary64

end ApiBaseline.Decimal
