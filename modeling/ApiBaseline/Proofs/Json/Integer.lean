import ApiBaseline.Proofs.Decimal.RoundTrip
import ApiBaseline.Proofs.Decimal.Rounding
import ApiBaseline.Proofs.Json.Line
import ApiBaseline.Schema.Text

/-!
# Integers as constants

The text of an integer is that of its numeral: digits without leading zeros are the digits
that their number is written with (`digitChars_digitsValue`). So an integer that fits into 64
bits is read as itself and written as it was (`toString_signedValue`).

An integer that does not fit has more than 60 bits. If it is read at all, then as a double of
that size (`large_double?`), and such a double is written with an exponent, which no integer
has (`rawText_ne_of_isExtreme`). The zero with a minus is a double too, but is written as it
was (`constant?_minusZero`).
-/

namespace ApiBaseline

open Decimal

namespace Json.Numeral

/-! ## Digits -/

theorem digitChar_digitOf {c : Char} (h : c.isDigit = true) :
    Nat.digitChar (digitOf c).val = c := by
  have hzero : '0'.toNat = 48 := rfl
  obtain ⟨hlower, -⟩ := Char.isDigit_iff_toNat.mp h
  rw [← Char.toNat_inj, Nat.toNat_digitChar_of_lt_ten (digitOf c).isLt, val_digitOf h]
  omega

theorem digitsValue_singleton {c : Char} (h : c.isDigit = true) :
    digitsValue [c] = (digitOf c).val := by
  simp [digitsValue, Nat.ofDigitChars, val_digitOf h]

theorem digitsValue_pos {d : Char} {ds : List Char} (h : d.isDigit = true) (hd : digitOf d ≠ 0) :
    0 < digitsValue (d :: ds) := by
  have hhead : 0 < (digitOf d).val := Fin.pos_iff_ne_zero.mpr hd
  rw [← List.singleton_append, digitsValue_append, digitsValue_singleton h]
  exact Nat.add_pos_left (Nat.mul_pos hhead (Nat.pow_pos (by decide))) _

/-- Digits without leading zeros are those that their number is written with. -/
theorem digitChars_digitsValue {cs : List Char} (h : IsWhole cs) :
    digitChars (digitsValue cs) = cs := by
  induction cs using List.reverseRecOn with
  | nil =>
      obtain ⟨d, ds, hcs, -⟩ := h.head
      cases hcs
  | append_singleton cs c ih =>
      have hc : c.isDigit = true := h.digits c (by simp)
      have hlt := (digitOf c).isLt
      rw [digitsValue_append, digitsValue_singleton hc, List.length_singleton, Nat.pow_one]
      cases cs with
      | nil =>
          have hlast : Nat.toDigits 10 (digitOf c).val = [c] := by
            rw [Nat.toDigits_of_lt_base hlt, digitChar_digitOf hc]
          simpa [digitsValue, digitChars] using hlast
      | cons d ds =>
          obtain ⟨e, es, heq, hhead⟩ := h.head
          obtain ⟨rfl, rfl⟩ := List.cons.inj heq
          have hne : digitOf d ≠ 0 := hhead.resolve_left (by simp)
          have hfront : IsWhole (d :: ds) :=
            ⟨fun e he => h.digits e (List.mem_append_left _ he), d, ds, rfl, Or.inr hne⟩
          have hpos : 0 < digitsValue (d :: ds) :=
            digitsValue_pos (hfront.digits d List.mem_cons_self) hne
          rw [digitChars, Nat.mul_comm, ← Nat.toDigits_append_toDigits (by decide) hpos hlt,
            Nat.toDigits_of_lt_base hlt, digitChar_digitOf hc]
          exact congrArg (· ++ [c]) (ih hfront)

theorem toList_toString (n : Int) : (toString n).toList = signedChars n := by
  rw [Int.toString_eq_repr, Int.repr_eq_if, signedChars]
  by_cases h : 0 ≤ n
  · rw [if_pos h, if_neg (Int.not_lt.mpr h), Nat.toList_repr, digitChars]
    congr 1
    omega
  · have hminus : "-".toList = ['-'] := rfl
    rw [if_neg h, if_pos (Int.not_le.mp h), String.toList_append, Nat.toList_repr, digitChars,
      hminus, List.singleton_append]
    congr 2
    omega

/-! ## Large numerals -/

/-- The numeral of a whole number, with or without a minus. -/
def ofWhole (negative : Bool) (n : Nat) : Numeral := ⟨negative, n, [], none⟩

/-- What is left of a large number when it is cut to 64 bits is large. -/
theorem leading_spec (n : Nat) : ∃ e : Nat, (leading n).exponent = e
    ∧ (2 ^ 60 ≤ n → 2 ^ 60 ≤ (leading n).significand) := by
  induction n using Nat.strongRecOn with
  | ind n ih =>
      rw [leading]
      split
      · exact ⟨0, rfl, id⟩
      · next hlt =>
        simp only [significandLimit] at hlt
        obtain ⟨e, he, hlarge⟩ := ih (n / 10) (by omega)
        exact ⟨e + 1, by simp [he], fun _ => hlarge (by omega)⟩

/-- A significand of more than 60 bits is read as a finite double of that size, if as one at
all. -/
theorem large_toDouble? {s e : Nat} {x : Binary64} (hs : 2 ^ 60 ≤ s)
    (h : Scaled.toDouble? ⟨s, e⟩ = some x) :
    x.isFinite = true ∧ 2 ^ (60 : Int) ≤ |x.value| := by
  have hsignificand : (2 : ℚ) ^ (60 : Int) ≤ |(Binary64.ofDecimal false s (0 : Nat)).value| := by
    refine Binary64.zpow_le_abs_value_ofDecimal (by decide) (by decide) ?_ false
    rw [pow_zero, mul_one]
    exact_mod_cast hs
  have hpower : (2 : ℚ) ^ (0 : Int) ≤ |(power e).value| := by
    refine Binary64.zpow_le_abs_value_ofDecimal (by decide) (by decide) ?_ false
    rw [zpow_zero, Nat.cast_one, one_mul]
    exact one_le_pow₀ (by norm_num)
  have hscaled := Binary64.zpow_le_abs_value_scaleUp (by decide) (by decide) hsignificand hpower
  have hdouble : Scaled.toDouble? ⟨s, e⟩
      = if e ≤ powerLimit then
          if ((Binary64.ofDecimal false s (0 : Nat)).scaleUp (power e)).isFinite then
            some ((Binary64.ofDecimal false s (0 : Nat)).scaleUp (power e)) else none
        else if (Binary64.ofDecimal false s (0 : Nat)).mantissa = 0 then
          some (Binary64.ofDecimal false s (0 : Nat)) else none := rfl
  rw [hdouble] at h
  split_ifs at h with _ hfinite hzero
  · exact Option.some.inj h ▸ ⟨hfinite, hscaled⟩
  -- The significand is not rounded to zero.
  · have hvalue : (Binary64.ofDecimal false s (0 : Nat)).value ≠ 0 :=
      abs_pos.mp ((zpow_pos two_pos _).trans_le hsignificand)
    have hmantissa := Binary64.mantissaOf_pos
      (Nat.pos_of_ne_zero (Binary64.value_ne_zero_iff.mp hvalue))
    exact absurd hzero hmantissa.ne'

theorem magnitude?_ofWhole (negative : Bool) (n : Nat) :
    (ofWhole negative n).magnitude? = (leading n).toDouble? := by
  simp [magnitude?, ofWhole, Scaled.extend]

/-- A whole number of more than 60 bits is read as a finite double of that size, if as one at
all. -/
theorem large_double? {negative : Bool} {n : Nat} {x : Binary64} (hn : 2 ^ 60 ≤ n)
    (h : (ofWhole negative n).double? = some x) :
    x.isFinite = true ∧ 2 ^ (60 : Int) ≤ |x.value| := by
  obtain ⟨y, hy, rfl⟩ := Option.map_eq_some_iff.mp h
  obtain ⟨e, he, hlarge⟩ := leading_spec n
  have hdouble : Scaled.toDouble? ⟨(leading n).significand, e⟩ = some y := by
    rw [← he, ← hy, magnitude?_ofWhole]
  have hread := large_toDouble? (hlarge hn) hdouble
  have hneg : y.neg.magnitude = y.magnitude := y.magnitude_neg
  split
  · rwa [Binary64.isFinite, Binary64.abs_value, hneg, ← Binary64.abs_value]
  · exact hread

/-! ## Constants -/

/-- The value of a whole number with its sign. -/
def signedValue (negative : Bool) (n : Nat) : Int := if negative then -(n : Int) else n

/-- Only a zero with a minus is no integer. -/
theorem ofWhole_eq_ofInt {negative : Bool} {n : Nat} (h : ¬ (negative = true ∧ n = 0)) :
    ofWhole negative n = ofInt (signedValue negative n) := by
  cases negative with
  | false => simp [ofWhole, ofInt, signedValue]
  | true =>
      have hn : n ≠ 0 := fun hn => h ⟨rfl, hn⟩
      simp [ofWhole, ofInt, signedValue, Nat.pos_of_ne_zero hn]

theorem constant?_minusZero :
    (ofWhole true 0).constant? = some (.real ⟨0x8000000000000000⟩) := by decide +kernel

theorem constant?_ofWhole {negative : Bool} {n : Nat} {c : Constant}
    (h : ¬ (negative = true ∧ n = 0)) (hc : Constant.ofInt? (signedValue negative n) = some c) :
    (ofWhole negative n).constant? = some c := by
  rw [ofWhole_eq_ofInt h]
  exact constant?_ofInt hc

/-- A whole number that does not fit is read as a double that is written with an exponent,
if as one at all. -/
theorem constant?_of_not_fits {negative : Bool} {n : Nat} {c : Constant}
    (h : ¬ (-2 ^ 63 ≤ signedValue negative n ∧ signedValue negative n < 2 ^ 64))
    (hc : (ofWhole negative n).constant? = some c) :
    ∃ x : Binary64, c = .real x ∧ x.isFinite = true ∧ x.IsExtreme := by
  have hlarge : 2 ^ 60 ≤ n := by
    simp only [signedValue] at h
    split at h <;> omega
  have hzero : ¬ (negative = true ∧ n = 0) := fun hzero => by
    rw [hzero.2] at hlarge
    exact absurd hlarge (by decide)
  have hinteger : (ofWhole negative n).integer? = some (signedValue negative n) := by
    rw [ofWhole_eq_ofInt hzero, integer?_ofInt]
  rw [constant?, hinteger, Option.bind_some, Constant.ofInt?_eq_none_iff.mpr h] at hc
  obtain ⟨x, hx, rfl⟩ := Option.map_eq_some_iff.mp hc
  obtain ⟨hfinite, hvalue⟩ := large_double? hlarge hx
  have hfrom : (10 : ℚ) ^ 15 ≤ 2 ^ (60 : Int) := by norm_num
  exact ⟨x, rfl, hfinite, abs_pos.mp ((zpow_pos two_pos _).trans_le hvalue),
    Or.inr (hfrom.trans hvalue)⟩

/-! ## Literals -/

/-- The text is an integer as it is written: perhaps a minus, and digits without leading
zeros. -/
def IsInteger (l : String) (v : Int) : Prop :=
  ∃ negative digits, IsWhole digits ∧ l.toList = (if negative then ['-'] else []) ++ digits
    ∧ v = signedValue negative (digitsValue digits)

section

variable {negative : Bool} {digits : List Char} (hdigits : IsWhole digits)

include hdigits

theorem chars_ofWhole : (ofWhole negative (digitsValue digits)).chars
    = (if negative then ['-'] else []) ++ digits := by
  have hchars : (ofWhole negative (digitsValue digits)).chars
      = (if negative then ['-'] else []) ++ digitChars (digitsValue digits) ++ [] ++ [] := rfl
  rw [hchars, digitChars_digitsValue hdigits, List.append_nil, List.append_nil]

theorem isWord_ofWhole : IsWord (ofWhole negative (digitsValue digits)).chars
    (number (ofWhole negative (digitsValue digits))) := by
  rw [chars_ofWhole hdigits]
  refine isWord_of_ofChars? ?_ fun c hc => ?_
  · have hfraction : ∀ c ∈ ([] : List Char), c.isDigit = true := nofun
    have hend : EndsDigits [] := nofun
    have hparts : ofChars? ((if negative then ['-'] else []) ++ (digits ++ (pointed [] ++ [])))
        = some (ofWhole negative (digitsValue digits)) :=
      ofChars?_parts hdigits hfraction hend rfl
    simpa [pointed] using hparts
  · rcases List.mem_append.mp hc with hsign | hdigit
    · cases negative with
      | false => cases hsign
      | true => exact List.mem_singleton.mp hsign ▸ by decide
    · exact endsWord_of_isDigit (hdigits.digits c hdigit)

end

end Json.Numeral

open Json Json.Numeral Schema

namespace Constant

theorem rawText_minusZero : (real ⟨0x8000000000000000⟩).rawText = "-0" := by decide +kernel

/-- The constant that an integer is has a sign exactly if the integer is below `2 ^ 63`. -/
theorem ofInt?_spec {n : Int} {c : Constant} (h : ofInt? n = some c) :
    c.rawText = toString n ∧ c.kind = if n < 2 ^ 63 then .signed else .unsigned := by
  rw [ofInt?] at h
  split at h
  · next i hi =>
    obtain rfl := Option.some.inj h
    exact Ranged.ofInt?_eq_some_iff.mp hi ▸ ⟨rfl, (if_pos i.upper).symm⟩
  · obtain ⟨i, hi, rfl⟩ := Option.map_eq_some_iff.mp h
    exact Ranged.ofInt?_eq_some_iff.mp hi ▸ ⟨rfl, (if_neg (Int.not_lt.mpr i.lower)).symm⟩

section

variable {l : String} {negative : Bool} {digits : List Char} (hdigits : IsWhole digits)
  (hl : l.toList = (if negative then ['-'] else []) ++ digits)

include hdigits hl

/-- An integer literal is read as the constant of its numeral. -/
theorem readText_integer {c : Constant} : readText .json Reader.constant l = .ok c
    ↔ (ofWhole negative (digitsValue digits)).constant? = some c := by
  have hline : (number (ofWhole negative (digitsValue digits))).line = l := by
    have hchars : (number (ofWhole negative (digitsValue digits))).lineChars = l.toList :=
      (chars_ofWhole hdigits).trans hl.symm
    rw [Json.line, hchars, String.ofList_toList]
  have hparse := parse_line (v := number (ofWhole negative (digitsValue digits)))
    (isWord_ofWhole hdigits)
  rw [hline] at hparse
  have hconstant : ∀ d : Constant, Reader.constant (.ofPlain (.constant d)) = .ok d := fun d => by
    cases d <;> rfl
  rw [readText, TextFormat.datum, hparse]
  simp only [Begun.map, Json.datum, toDatum, if_true]
  cases (ofWhole negative (digitsValue digits)).constant? with
  | none => simp [Reader.constant]
  | some d => simp [hconstant]

/-- An integer is written as its literal is. -/
theorem toString_signedValue (h : ¬ (negative = true ∧ digitsValue digits = 0)) :
    toString (signedValue negative (digitsValue digits)) = l := by
  rw [← String.toList_inj, toList_toString, ← chars_ofInt, ← ofWhole_eq_ofInt h,
    chars_ofWhole hdigits, hl]

theorem eq_minusZero_iff : l = "-0" ↔ negative = true ∧ digitsValue digits = 0 := by
  have hminusZero : "-0".toList = ['-', '0'] := rfl
  rw [← String.toList_inj, hl, hminusZero]
  constructor
  · intro h
    cases negative with
    | false =>
        have hsame : digits = ['-', '0'] := h
        have hmem : '-' ∈ digits := hsame ▸ List.mem_cons_self
        exact absurd (hdigits.digits '-' hmem) (by decide)
    | true =>
        have hsame : digits = ['0'] := (List.cons.inj h).2
        exact ⟨rfl, hsame ▸ rfl⟩
  · rintro ⟨rfl, hzero⟩
    rw [← digitChars_digitsValue hdigits, hzero]
    rfl

/-- The literal has no exponent. -/
theorem rawText_ne_of_isExtreme {x : Binary64} (hfinite : x.isFinite = true)
    (hextreme : x.IsExtreme) : (real x).rawText ≠ l := by
  intro heq
  have hmark : 'E' ∉ l.toList := by
    rw [hl, List.mem_append]
    rintro (hsign | hdigit)
    · cases negative with
      | false => cases hsign
      | true => exact absurd (List.mem_singleton.mp hsign) (by decide)
    · exact absurd (hdigits.digits 'E' hdigit) (by decide)
  obtain ⟨front, sign, back, htext, -⟩ := (hasExponent_iff hfinite).mpr hextreme
  rw [heq] at htext
  exact hmark (by simp [htext])

/-- What an integer literal can be read as. -/
theorem readText_integer_cases {c : Constant} (h : readText .json Reader.constant l = .ok c) :
    (l = "-0" ∧ c = .real ⟨0x8000000000000000⟩)
      ∨ (l ≠ "-0" ∧ (-2 ^ 63 ≤ signedValue negative (digitsValue digits)
            ∧ signedValue negative (digitsValue digits) < 2 ^ 64)
          ∧ c.rawText = l
          ∧ c.kind = if signedValue negative (digitsValue digits) < 2 ^ 63 then .signed
              else .unsigned)
      ∨ (¬ (-2 ^ 63 ≤ signedValue negative (digitsValue digits)
            ∧ signedValue negative (digitsValue digits) < 2 ^ 64)
          ∧ c.kind = .real ∧ c.rawText ≠ l) := by
  have hzero := eq_minusZero_iff hdigits hl
  rw [readText_integer hdigits hl] at h
  by_cases hminus : negative = true ∧ digitsValue digits = 0
  · obtain ⟨rfl, hvalue⟩ := hminus
    rw [hvalue, constant?_minusZero] at h
    exact Or.inl ⟨hzero.mpr ⟨rfl, hvalue⟩, (Option.some.inj h).symm⟩
  by_cases hfits : -2 ^ 63 ≤ signedValue negative (digitsValue digits)
      ∧ signedValue negative (digitsValue digits) < 2 ^ 64
  · obtain ⟨d, hd⟩ := exists_ofInt? hfits
    obtain ⟨hraw, hkind⟩ := ofInt?_spec hd
    obtain rfl := Option.some.inj ((constant?_ofWhole hminus hd).symm.trans h)
    exact Or.inr (Or.inl ⟨mt hzero.mp hminus, hfits,
      hraw.trans (toString_signedValue hdigits hl hminus), hkind⟩)
  · obtain ⟨x, rfl, hfinite, hextreme⟩ := constant?_of_not_fits hfits h
    exact Or.inr (Or.inr ⟨hfits, rfl, rawText_ne_of_isExtreme hdigits hl hfinite hextreme⟩)

end

/-- **Integers are exact precisely within 64 bits.** There they are always read, below
`2 ^ 63` as signed ones, and all others are doubles with a different text. A zero with a
minus is the one double that keeps its text. -/
theorem integer_exact_iff {l : String} {v : Int} (hl : IsInteger l v) :
    (∀ c, readText .json Reader.constant l = .ok c →
        (c.rawText = l ↔ -2 ^ 63 ≤ v ∧ v < 2 ^ 64)
          ∧ (c.kind = .signed ↔ -2 ^ 63 ≤ v ∧ v < 2 ^ 63 ∧ l ≠ "-0")
          ∧ (c.kind = .unsigned ↔ 2 ^ 63 ≤ v ∧ v < 2 ^ 64)
          ∧ (c.kind = .real ↔ l = "-0" ∨ v < -2 ^ 63 ∨ 2 ^ 64 ≤ v))
      ∧ (-2 ^ 63 ≤ v ∧ v < 2 ^ 64 → ∃ c, readText .json Reader.constant l = .ok c) := by
  obtain ⟨negative, digits, hdigits, htext, rfl⟩ := hl
  have hzero := eq_minusZero_iff hdigits htext
  refine ⟨fun c hread => ?_, fun hfits => ?_⟩
  · rcases readText_integer_cases hdigits htext hread with
      ⟨hminus, rfl⟩ | ⟨hminus, ⟨hlower, hupper⟩, hraw, hkind⟩ | ⟨hfits, hkind, hraw⟩
    · have hraw : (real ⟨0x8000000000000000⟩).rawText = l := rawText_minusZero.trans hminus.symm
      obtain ⟨rfl, hvalue⟩ := hzero.mp hminus
      simp [hraw, kind, hminus, hvalue, signedValue]
    · have hreal : ¬ (l = "-0" ∨ signedValue negative (digitsValue digits) < -2 ^ 63
          ∨ 2 ^ 64 ≤ signedValue negative (digitsValue digits)) :=
        not_or.mpr ⟨hminus, by omega⟩
      rw [hkind]
      refine ⟨iff_of_true hraw ⟨hlower, hupper⟩, ?_⟩
      split
      · next hsmall =>
        exact ⟨iff_of_true rfl ⟨hlower, hsmall, hminus⟩, iff_of_false (by decide) (by omega),
          iff_of_false (by decide) hreal⟩
      · next hlarge =>
        exact ⟨iff_of_false (by decide) (by omega), iff_of_true rfl ⟨by omega, hupper⟩,
          iff_of_false (by decide) hreal⟩
    · rw [hkind]
      exact ⟨iff_of_false hraw hfits, iff_of_false (by decide) (by omega),
        iff_of_false (by decide) (by omega), iff_of_true rfl (Or.inr (by omega))⟩
  · by_cases hminus : negative = true ∧ digitsValue digits = 0
    · obtain ⟨rfl, hvalue⟩ := hminus
      have hread := readText_integer hdigits htext (c := .real ⟨0x8000000000000000⟩)
      rw [hvalue] at hread
      exact ⟨_, hread.mpr constant?_minusZero⟩
    · obtain ⟨c, hc⟩ := exists_ofInt? hfits
      exact ⟨c, (readText_integer hdigits htext).mpr (constant?_ofWhole hminus hc)⟩

/-- The first integer above 64 bits is read as a double and written with an exponent. The
least one of 64 bits keeps its text. -/
theorem twoToSixtyFour_is_real :
    IsInteger "18446744073709551616" (2 ^ 64)
      ∧ readText .json Reader.constant "18446744073709551616" = .ok (real ⟨0x43f0000000000000⟩)
      ∧ (real ⟨0x43f0000000000000⟩).rawText ≠ "18446744073709551616"
      ∧ (real ⟨0x43f0000000000000⟩).kind = .real
      ∧ ∃ c, readText .json Reader.constant "-9223372036854775808" = .ok c
          ∧ c.rawText = "-9223372036854775808" ∧ c.kind = .signed := by
  have hdigits : IsWhole "18446744073709551616".toList := ⟨by decide, _, _, rfl, by decide⟩
  have hsign : "18446744073709551616".toList
      = (if false then ['-'] else []) ++ "18446744073709551616".toList := rfl
  have hinteger : IsInteger "18446744073709551616" (2 ^ 64) := ⟨false, _, hdigits, hsign, rfl⟩
  have hread : readText .json Reader.constant "18446744073709551616"
      = .ok (real ⟨0x43f0000000000000⟩) :=
    (readText_integer hdigits hsign).mpr (by decide +kernel)
  have hminimum : IsInteger "-9223372036854775808" (-2 ^ 63) :=
    ⟨true, "9223372036854775808".toList, ⟨by decide, _, _, rfl, by decide⟩, rfl, rfl⟩
  obtain ⟨hraw, -, -, hkind⟩ := (integer_exact_iff hinteger).1 _ hread
  obtain ⟨c, hc⟩ := (integer_exact_iff hminimum).2 (by decide)
  obtain ⟨hrawc, hkindc, -⟩ := (integer_exact_iff hminimum).1 _ hc
  exact ⟨hinteger, hread, mt hraw.mp (by decide), hkind.mpr (by decide), c, hc,
    hrawc.mpr (by decide), hkindc.mpr (by decide)⟩

end Constant

end ApiBaseline
