import ApiBaseline.Proofs.Json.Numeral
import Mathlib.Algebra.Order.Field.Power
import Mathlib.Data.Rat.Cast.Order
import Mathlib.Tactic.FieldSimp
import Mathlib.Tactic.NormNum
import Mathlib.Tactic.Ring

/-!
# What a numeral stands for

A numeral is read as a double in two roundings, but it stands for one rational number. What
that is depends on its digits and on where the point stands among them, and not on how they
are laid out: zeros in front, zeros behind and an exponent can all take the place of a point
(`placed`). A text that has the parts of a numeral in a row is read as the numeral with
these parts (`ofChars?_parts`).
-/

namespace ApiBaseline.Json.Numeral

/-! ## Digits and a point -/

/-- The number that digits make up. -/
def digitsValue (cs : List Char) : Nat := Nat.ofDigitChars 10 cs 0

/-- The digits with a point behind the first `point` of them. -/
def placed (cs : List Char) (point : Int) : ℚ := digitsValue cs * 10 ^ (point - cs.length)

theorem digitsValue_append (cs ds : List Char) :
    digitsValue (cs ++ ds) = digitsValue cs * 10 ^ ds.length + digitsValue ds := by
  rw [digitsValue, Nat.ofDigitChars_append, Nat.ofDigitChars_eq_ofDigitChars_zero, digitsValue,
    digitsValue, Nat.mul_comm]

theorem digitsValue_zeros (n : Nat) : digitsValue (List.replicate n '0') = 0 := by
  rw [digitsValue, Nat.ofDigitChars_replicate_zero, Nat.mul_zero]

theorem ofDigits_map_digitOf {cs : List Char} (h : ∀ c ∈ cs, c.isDigit = true) :
    ofDigits (cs.map digitOf) = digitsValue cs := foldl_digitOf h 0

theorem placed_append (ws fs : List Char) (point : Int) :
    placed (ws ++ fs) (ws.length + point)
      = (digitsValue ws + digitsValue fs / 10 ^ fs.length) * 10 ^ point := by
  have hexponent : (ws.length + point - (ws ++ fs).length : Int) = point - fs.length := by
    rw [List.length_append]
    push_cast
    ring
  rw [placed, hexponent, digitsValue_append, zpow_sub₀ (by norm_num), zpow_natCast]
  push_cast
  field_simp

theorem placed_append_zeros (cs : List Char) (n : Nat) (point : Int) :
    placed (cs ++ List.replicate n '0') point = placed cs point := by
  have hexponent : (point - (cs ++ List.replicate n '0').length : Int)
      = point - cs.length - n := by
    rw [List.length_append, List.length_replicate]
    push_cast
    ring
  rw [placed, hexponent, digitsValue_append, digitsValue_zeros, List.length_replicate,
    zpow_sub₀ (by norm_num), zpow_natCast, placed]
  push_cast
  field_simp
  ring

theorem placed_zeros_append (n : Nat) (cs : List Char) (point : Int) :
    placed (List.replicate n '0' ++ cs) point = placed cs (point - n) := by
  have hexponent : (point - (List.replicate n '0' ++ cs).length : Int)
      = point - n - cs.length := by
    rw [List.length_append, List.length_replicate]
    push_cast
    ring
  rw [placed, hexponent, digitsValue_append, digitsValue_zeros, Nat.zero_mul, Nat.zero_add, placed]

/-! ## Numerals -/

/-- The number that a numeral stands for, without its sign. -/
def magnitude (n : Numeral) : ℚ :=
  (n.whole + ofDigits n.fraction / 10 ^ n.fraction.length) * 10 ^ n.exponent.getD 0

/-- The number that a numeral stands for. -/
def toRat (n : Numeral) : ℚ := if n.negative then -n.magnitude else n.magnitude

/-- Digits that can make up the whole part of a numeral. -/
structure IsWhole (cs : List Char) : Prop where
  digits : ∀ c ∈ cs, c.isDigit = true
  head : ∃ d ds, cs = d :: ds ∧ (ds = [] ∨ digitOf d ≠ 0)

/-- The fraction with its point. -/
def pointed : List Char → List Char
  | [] => []
  | cs => '.' :: cs

/-- A text behind the digits of a numeral: nothing, or an exponent. -/
def EndsDigits (cs : List Char) : Prop := ∀ c ∈ cs.head?, c.isDigit = false ∧ c ≠ '.'

section

variable {ws fs rest : List Char}

theorem takeWhole?_append (hws : IsWhole ws) (hrest : ∀ c ∈ rest.head?, c.isDigit = false) :
    takeWhole? (ws ++ rest) = some (digitsValue ws, rest) := by
  have hvalue := ofDigits_map_digitOf hws.digits
  obtain ⟨d, ds, rfl, hhead⟩ := hws.head
  rw [takeWhole?, takeDigits_append hws.digits hrest]
  cases ds with
  | nil => exact congrArg (fun n => some (n, rest)) hvalue
  | cons e ds =>
      have hne : digitOf d ≠ 0 := hhead.resolve_left (List.cons_ne_nil _ _)
      simp only [List.map_cons] at hvalue ⊢
      rw [if_neg hne, hvalue]

theorem takeFraction?_append (hfs : ∀ c ∈ fs, c.isDigit = true) (hrest : EndsDigits rest) :
    takeFraction? (pointed fs ++ rest) = some (fs.map digitOf, rest) := by
  cases fs with
  | nil =>
      rw [pointed, List.nil_append, takeFraction?.eq_def]
      split
      · exact absurd rfl (hrest '.' rfl).2
      · rfl
  | cons f fs =>
      rw [pointed, List.cons_append, takeFraction?,
        takeDigits_append hfs fun c hc => (hrest c hc).1]
      · rfl
      · exact nofun

theorem takeSign_append {negative : Bool} (hws : IsWhole ws) :
    takeSign ((if negative then ['-'] else []) ++ ws ++ rest) = (negative, ws ++ rest) := by
  cases negative with
  | true => rfl
  | false =>
      obtain ⟨d, ds, rfl, -⟩ := hws.head
      have hne : d ≠ '-' := by
        rintro rfl
        exact absurd (hws.digits '-' List.mem_cons_self) (by decide)
      rw [if_neg Bool.false_ne_true, List.nil_append, takeSign.eq_def]
      split
      · next heq => exact absurd (List.cons.inj heq).1 hne
      · rfl

/-- **The parts of a numeral in a row.** -/
theorem ofChars?_parts {negative : Bool} (hws : IsWhole ws) (hfs : ∀ c ∈ fs, c.isDigit = true)
    (hrest : EndsDigits rest) {exponent : Option Int} (hexponent : exponent? rest = some exponent) :
    ofChars? ((if negative then ['-'] else []) ++ (ws ++ (pointed fs ++ rest)))
      = some ⟨negative, digitsValue ws, fs.map digitOf, exponent⟩ := by
  have hbehind : ∀ c ∈ (pointed fs ++ rest).head?, c.isDigit = false := by
    cases fs with
    | nil => exact fun c hc => (hrest c hc).1
    | cons f fs =>
        rintro c hc
        obtain rfl := Option.some.inj hc
        rfl
  rw [ofChars?, ← List.append_assoc, takeSign_append hws]
  simp only [takeWhole?_append hws hbehind, takeFraction?_append hfs hrest, hexponent,
    Option.bind_eq_bind, Option.bind_some]
  rfl

end

/-- The numeral with these parts stands for its digits, with the point behind those of the
whole part. -/
theorem magnitude_parts {negative : Bool} {ws fs : List Char}
    (hfs : ∀ c ∈ fs, c.isDigit = true) (exponent : Option Int) :
    magnitude ⟨negative, digitsValue ws, fs.map digitOf, exponent⟩
      = placed (ws ++ fs) (ws.length + exponent.getD 0) := by
  rw [placed_append, magnitude, ofDigits_map_digitOf hfs, List.length_map]

end ApiBaseline.Json.Numeral
