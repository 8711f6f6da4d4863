import ApiBaseline.Proofs.Decimal.Layout
import ApiBaseline.Proofs.Record.Literal

/-!
# Doubles as constants

The text of a finite double is a numeral, and what it stands for lies in the interval of the
double. So the double is the nearest one to its text, and with the sign of the text no other
one is: a zero keeps its sign, and no two doubles have one text. The size of the double alone
decides whether it is written with an exponent (`layout_magnitude`).
-/

namespace ApiBaseline

open Json.Numeral

namespace Decimal

variable {x : Binary64}

namespace Binary64

theorem value_ne_zero_iff : x.value ≠ 0 ↔ x.magnitude ≠ 0 := by
  rw [← abs_ne_zero, abs_value, ← magnitudeValue_zero, strictMono_magnitudeValue.injective.ne_iff]

/-- Other than zero, and too small or too large to be written without an exponent. -/
def IsExtreme (x : Binary64) : Prop :=
  x.value ≠ 0 ∧ (|x.value| < 1 / 10 ^ 4 ∨ 10 ^ 15 ≤ |x.value|)

end Binary64

/-! ## Layouts -/

section

variable (layout : Layout)

theorem Layout.write_of_isFinite (hx : x.isFinite = true) : (layout.write x).toList
    = (if x.isNegative then ['-'] else []) ++ layout.magnitude x := by
  have hinfinite : x.isInfinite = false := by
    simp only [Binary64.isFinite, Binary64.isInfinite, decide_eq_true_eq, beq_eq_false_iff_ne]
      at hx ⊢
    exact hx.ne
  rw [write, Binary64.isNaN_of_isFinite hx, hinfinite, if_neg Bool.false_ne_true]
  dsimp only
  rw [if_neg Bool.false_ne_true, String.toList_ofList]
  split <;> rfl

theorem Layout.magnitude_zero (h : x.magnitude = 0) : layout.magnitude x = ['0'] := by
  have hnum : x.toRatio.num = 0 := by
    have hvalue := x.toRat_toRatio
    have hden : (x.toRatio.den : ℚ) ≠ 0 := Nat.cast_ne_zero.mpr (Ratio.den_dyadic_pos _ _).ne'
    rw [h, Binary64.magnitudeValue_zero, Ratio.toRat, div_eq_zero_iff, or_iff_left hden] at hvalue
    exact_mod_cast hvalue
  exact if_pos hnum

theorem Layout.magnitude_succ {k : Nat} (h : x.magnitude = k + 1) : layout.magnitude x
    = if layout.exponentBelow.le x.toRatio && x.toRatio.lt layout.exponentFrom
      then x.shortest.positional else x.shortest.scientific layout := by
  have hmantissa : 0 < x.mantissa := Binary64.mantissaOf_pos (h ▸ Nat.succ_pos k)
  exact if_neg (Ratio.num_dyadic_pos hmantissa _).ne'

end

end Decimal

/-! ## Texts -/

namespace Constant

open Decimal

/-- The text ends with an exponent: `E`, a sign and two digits or more. -/
def HasExponent (text : List Char) : Prop :=
  ∃ front sign digits, text = front ++ 'E' :: sign :: digits ∧ 'E' ∉ front
    ∧ (sign = '+' ∨ sign = '-') ∧ 2 ≤ digits.length ∧ ∀ c ∈ digits, c.isDigit = true

theorem mark_notMem_positional (d : Digits) : 'E' ∉ d.positional := by
  intro hmem
  -- Without an exponent the mark of the layout does not matter.
  rcases Layout.isNumeric_positional { layout with mark := '+' } d 'E' hmem with h | h
  · exact absurd h (by decide)
  · exact absurd h (by decide)

/-- Without the mark there is no exponent. -/
theorem not_hasExponent_append {front body : List Char} (hfront : 'E' ∉ front)
    (hbody : 'E' ∉ body) : ¬ HasExponent (front ++ body) := by
  rintro ⟨significand, sign, digits, htext, -⟩
  have hmem : 'E' ∈ front ++ body := htext ▸ List.mem_append_right _ List.mem_cons_self
  exact (List.mem_append.mp hmem).elim hfront hbody

theorem hasExponent_scientific (d : Digits) {front : List Char} (hfront : 'E' ∉ front) :
    HasExponent (front ++ d.scientific layout) := by
  have hdigits := isDigit_of_mem_trimZeros (isDigit_of_mem_toDigits (n := d.value))
  have hscientific := d.scientific_eq layout
  generalize trimZeros (Nat.toDigits 10 d.value) = cs at hdigits hscientific
  have hmark : ∀ c ∈ cs, c ≠ 'E' := by
    rintro _ hc rfl
    exact absurd (hdigits _ hc) (by decide)
  refine ⟨front ++ (cs.take 1 ++ pointed (cs.drop 1)), if d.point - 1 < 0 then '-' else '+',
    layout.exponentDigits (d.point - 1), ?_, ?_, ?_, le_length_exponentDigits layout _,
    isDigit_of_mem_exponentDigits layout _⟩
  · rw [hscientific, List.append_assoc, List.append_assoc]
    rfl
  · rw [List.mem_append, List.mem_append, not_or, not_or]
    refine ⟨hfront, fun hmem => hmark _ (List.mem_of_mem_take hmem) rfl, fun hmem => ?_⟩
    rcases mem_pointed hmem with h | h
    · exact absurd h (by decide)
    · exact hmark _ (List.mem_of_mem_drop h) rfl
  · split
    · exact Or.inr rfl
    · exact Or.inl rfl

/-- The size of a double decides how it is written. -/
theorem layout_magnitude {x : Binary64} {k : Nat} (h : x.magnitude = k + 1) :
    (x.IsExtreme → layout.magnitude x = x.shortest.scientific layout)
      ∧ (¬ x.IsExtreme → layout.magnitude x = x.shortest.positional) := by
  have hden : 0 < x.toRatio.den := Ratio.den_dyadic_pos _ _
  have hvalue : x.value ≠ 0 := Binary64.value_ne_zero_iff.mpr (h ▸ Nat.succ_ne_zero k)
  have hbelow : layout.exponentBelow.toRat = 1 / 10 ^ 4 := by norm_num [layout, Ratio.toRat]
  have hfrom : layout.exponentFrom.toRat = 10 ^ 15 := by norm_num [layout, Ratio.toRat]
  have hplain : (layout.exponentBelow.le x.toRatio && x.toRatio.lt layout.exponentFrom) = true
      ↔ ¬ x.IsExtreme := by
    rw [Bool.and_eq_true, Ratio.le_iff (by decide) hden, Ratio.lt_iff hden (by decide), hbelow,
      hfrom, x.toRat_toRatio, ← x.abs_value, Binary64.IsExtreme, not_and, not_or, not_lt, not_le]
    exact ⟨fun hsize _ => hsize, fun hsize => hsize hvalue⟩
  rw [layout.magnitude_succ h]
  exact ⟨fun hextreme => if_neg fun hplain' => hplain.mp hplain' hextreme,
    fun hmiddle => if_pos (hplain.mpr hmiddle)⟩

/-- The text of a magnitude stands for zero, or for a number in the interval of the double. -/
theorem readsAs_magnitude (x : Binary64) : ∃ exponent q,
    ReadsAs (layout.magnitude x) exponent q ∧ (exponent.isSome = true ↔ x.IsExtreme)
      ∧ (x.magnitude = 0 ∧ q = 0 ∨ ∃ k, x.magnitude = k + 1 ∧ x.interval.Holds q) := by
  rcases hk : x.magnitude with _ | k
  · have hread := readsAs_pointed isWhole_zero (List.forall_mem_nil _)
    have hzero : placed (['0'] ++ []) (['0'].length : Nat) = 0 := by
      norm_num [placed, digitsValue, Nat.ofDigitChars]
    rw [hzero] at hread
    have hmiddle : ¬ x.IsExtreme := fun hextreme =>
      Binary64.value_ne_zero_iff.mp hextreme.1 hk
    exact ⟨none, 0, layout.magnitude_zero hk ▸ hread,
      iff_of_false Bool.false_ne_true hmiddle, Or.inl ⟨rfl, rfl⟩⟩
  · obtain ⟨hpos, hholds⟩ := Binary64.holds_shortest hk
    obtain ⟨hscientific, hpositional⟩ := layout_magnitude hk
    by_cases hextreme : x.IsExtreme
    · refine ⟨some (x.shortest.point - 1), x.shortest.toRat, ?_, iff_of_true rfl hextreme,
        Or.inr ⟨k, rfl, hholds⟩⟩
      exact hscientific hextreme ▸ Digits.readsAs_scientific rfl hpos
    · refine ⟨none, x.shortest.toRat, ?_, iff_of_false Bool.false_ne_true hextreme,
        Or.inr ⟨k, rfl, hholds⟩⟩
      exact hpositional hextreme ▸ Digits.readsAs_positional hpos

theorem toList_rawText_real {x : Binary64} (hx : x.isFinite = true) : (real x).rawText.toList
    = (if x.isNegative then ['-'] else []) ++ layout.magnitude x := layout.write_of_isFinite hx

/-- The text is a numeral, and the double is the one double with its sign that is nearest to
what the numeral stands for. -/
theorem exists_numeral {x : Binary64} (hx : x.isFinite = true) :
    ∃ n, ofChars? (real x).rawText.toList = some n ∧ n.negative = x.isNegative
      ∧ x.IsNearest n.toRat
      ∧ (∀ y : Binary64, y.isFinite = true → y.isNegative = n.negative → y.IsNearest n.toRat →
          y = x)
      ∧ (n.exponent.isSome = true ↔ x.IsExtreme) := by
  obtain ⟨exponent, q, hread, hexponent, hq⟩ := readsAs_magnitude x
  obtain ⟨n, hn, hsign, rfl, hvalue⟩ := hread x.isNegative
  have hrat : n.toRat = Binary64.withSign x.isNegative q := by
    rw [← hsign, ← hvalue]
    rfl
  rw [← toList_rawText_real hx] at hn
  refine ⟨n, hn, hsign, ?_, ?_, hexponent⟩
  all_goals rw [hrat]
  · rcases hq with ⟨hzero, rfl⟩ | ⟨k, hk, hholds⟩
    · rw [Binary64.withSign, neg_zero, ite_self]
      exact Binary64.isNearest_zero hzero
    · exact Binary64.isNearest_of_holds hk hholds
  · intro y hy hsame hnearest
    rw [hsign] at hsame
    rcases hq with ⟨hzero, rfl⟩ | ⟨k, hk, hholds⟩
    · rw [Binary64.withSign, neg_zero, ite_self] at hnearest
      exact Binary64.eq_of_isNearest_zero hzero hx hsame hnearest
    · exact Binary64.eq_of_isNearest hk hholds hx hy hsame hnearest

theorem hasExponent_iff {x : Binary64} (hx : x.isFinite = true) :
    HasExponent (real x).rawText.toList ↔ x.IsExtreme := by
  have hfront : 'E' ∉ if x.isNegative then ['-'] else [] := by
    split <;> decide
  rw [toList_rawText_real hx]
  rcases hk : x.magnitude with _ | k
  · rw [layout.magnitude_zero hk]
    exact iff_of_false (not_hasExponent_append hfront (by decide))
      fun h => Binary64.value_ne_zero_iff.mp h.1 hk
  · obtain ⟨hscientific, hpositional⟩ := layout_magnitude hk
    by_cases hextreme : x.IsExtreme
    · rw [hscientific hextreme]
      exact iff_of_true (hasExponent_scientific _ hfront) hextreme
    · rw [hpositional hextreme]
      exact iff_of_false (not_hasExponent_append hfront (mark_notMem_positional _)) hextreme

/-- **A finite double can be read off its text.** -/
theorem real_reads_back {x : Binary64} (hx : x.isFinite = true) :
    (∃ n, ofChars? (real x).rawText.toList = some n ∧ n.negative = x.isNegative
      ∧ x.IsNearest n.toRat
      ∧ (∀ y : Binary64, y.isFinite = true → y.isNegative = n.negative → y.IsNearest n.toRat →
          y = x)
      ∧ (n.exponent.isSome = true ↔ x.IsExtreme))
    ∧ (∀ y : Binary64, y.isFinite = true → (real y).rawText = (real x).rawText → y = x)
    ∧ (HasExponent (real x).rawText.toList ↔ x.IsExtreme) := by
  have hnumeral := exists_numeral hx
  refine ⟨hnumeral, fun y hy htext => ?_, hasExponent_iff hx⟩
  obtain ⟨n, hn, -, -, honly, -⟩ := hnumeral
  obtain ⟨m, hm, hsign, hnearest, -⟩ := exists_numeral hy
  obtain rfl : m = n := Option.some.inj (hm.symm.trans (htext ▸ hn))
  exact honly y hy hsign.symm hnearest

/-- The double nearest to `-2.5 * 10 ^ -7`. -/
def minusQuarterMicro : Binary64 := ⟨0xbe90c6f7a0b5ed8d⟩

/-- `-2.5E-07` is read as no other double, and has its exponent because that one is small. -/
theorem minusQuarterMicro_reads_back :
    minusQuarterMicro.isFinite = true
      ∧ (∃ n, ofChars? "-2.5E-07".toList = some n ∧ n.negative = true
          ∧ minusQuarterMicro.IsNearest n.toRat
          ∧ ∀ y : Binary64, y.isFinite = true → y.isNegative = n.negative →
              y.IsNearest n.toRat → y = minusQuarterMicro)
      ∧ (∀ y : Binary64, y.isFinite = true → (real y).rawText = "-2.5E-07" →
          y = minusQuarterMicro)
      ∧ minusQuarterMicro.IsExtreme := by
  have hfinite : minusQuarterMicro.isFinite = true := by decide
  have htext : (real minusQuarterMicro).rawText = "-2.5E-07" := by decide +kernel
  obtain ⟨⟨n, hn, hsign, hnearest, honly, -⟩, hinjective, hexponent⟩ := real_reads_back hfinite
  rw [htext] at hn hinjective hexponent
  exact ⟨hfinite, ⟨n, hn, hsign, hnearest, honly⟩, hinjective,
    hexponent.mp ⟨"-2.5".toList, '-', ['0', '7'], by decide⟩⟩

end Constant

end ApiBaseline
