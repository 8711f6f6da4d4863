import ApiBaseline.Decimal.Shortest

/-!
# Constants

A parameter may carry a constant as its default. A constant has no type of its
own: it is a boolean, an integer of 64 bits, a double or a text, and the
declared type of its parameter decides how it is written as a literal. An
integer has a sign, unless it is too large for that.
-/

namespace ApiBaseline

/-- An integer in a range. -/
structure Ranged (least limit : Int) where
  value : Int
  lower : least ≤ value
  upper : value < limit
  deriving DecidableEq, Repr

namespace Ranged

variable {least limit : Int}

/-- The integer, if it lies in the range. -/
def ofInt? (n : Int) : Option (Ranged least limit) :=
  if h : least ≤ n ∧ n < limit then some ⟨n, h.1, h.2⟩ else none

theorem ofInt?_eq_some_iff {n : Int} {i : Ranged least limit} :
    ofInt? n = some i ↔ i.value = n := by
  constructor
  · intro h
    obtain ⟨hrange, heq⟩ := Option.dite_none_right_eq_some.mp h
    exact Option.some.inj heq ▸ rfl
  · rintro rfl
    exact dif_pos ⟨i.lower, i.upper⟩

theorem ofInt?_eq_none_iff {n : Int} :
    (ofInt? n : Option (Ranged least limit)) = none ↔ ¬ (least ≤ n ∧ n < limit) := by
  rw [ofInt?, dite_eq_right_iff]
  exact ⟨fun h hrange => Option.some_ne_none _ (h hrange), fun h hrange => absurd hrange h⟩

end Ranged

/-- An integer of 64 bits with a sign. -/
abbrev Signed : Type := Ranged (-0x8000000000000000) 0x8000000000000000

/-- An integer of 64 bits that is too large for one with a sign. -/
abbrev Unsigned : Type := Ranged 0x8000000000000000 0x10000000000000000

/-- A constant. -/
inductive Constant where
  | boolean (value : Bool)
  | signed (value : Signed)
  | unsigned (value : Unsigned)
  | real (value : Decimal.Binary64)
  | text (value : String)
  deriving DecidableEq, Repr

namespace Constant

/-- The constant that an integer is: one with a sign if it fits, or else one
without. -/
def ofInt? (n : Int) : Option Constant :=
  match Ranged.ofInt? n with
  | some i => some (signed i)
  | none => (Ranged.ofInt? n).map unsigned

@[simp] theorem ofInt?_signed (n : Signed) : ofInt? n.value = some (signed n) := by
  rw [ofInt?, Ranged.ofInt?_eq_some_iff.mpr rfl]

@[simp] theorem ofInt?_unsigned (n : Unsigned) : ofInt? n.value = some (unsigned n) := by
  have hlarge : (Ranged.ofInt? n.value : Option Signed) = none :=
    Ranged.ofInt?_eq_none_iff.mpr fun h => Int.not_lt.mpr n.lower h.2
  rw [ofInt?, hlarge, Ranged.ofInt?_eq_some_iff.mpr rfl]
  rfl

/-- No constant stands for an integer of more than 64 bits. -/
theorem ofInt?_eq_none_iff {n : Int} :
    ofInt? n = none ↔ ¬ (-0x8000000000000000 ≤ n ∧ n < 0x10000000000000000) := by
  rw [ofInt?]
  cases hsigned : (Ranged.ofInt? n : Option Signed) with
  | some i =>
      have hvalue := Ranged.ofInt?_eq_some_iff.mp hsigned
      have hlower := i.lower
      have hupper := i.upper
      exact iff_of_false (Option.some_ne_none _) (by omega)
  | none =>
      have hrange := Ranged.ofInt?_eq_none_iff.mp hsigned
      simp only [Option.map_eq_none_iff, Ranged.ofInt?_eq_none_iff]
      omega

theorem exists_ofInt? {n : Int} (h : -0x8000000000000000 ≤ n ∧ n < 0x10000000000000000) :
    ∃ c, ofInt? n = some c :=
  Option.ne_none_iff_exists'.mp (mt ofInt?_eq_none_iff.mp (Decidable.not_not.mpr h))

/-- What a constant is. -/
inductive Kind where
  | boolean
  | signed
  | unsigned
  | real
  | text
  deriving DecidableEq, Repr

def kind : Constant → Kind
  | boolean _ => .boolean
  | signed _ => .signed
  | unsigned _ => .unsigned
  | real _ => .real
  | text _ => .text

/-- Doubles have an exponent outside of `[10 ^ -4, 10 ^ 15)`, with a capital
mark, a sign and at least two digits. -/
def layout : Decimal.Layout where
  exponentFrom := ⟨1000000000000000, 1⟩
  exponentBelow := ⟨1, 10000⟩
  mark := 'E'
  exponentWidth := 2
  infinity := "Infinity"
  nan := "NaN"

/-- The constant as plain text: booleans are capitalised, an integer has all
its digits and no more, a double its shortest form, a text no quotes. -/
def rawText : Constant → String
  | boolean true => "True"
  | boolean false => "False"
  | signed n => toString n.value
  | unsigned n => toString n.value
  | real x => layout.write x
  | text s => s

end Constant

end ApiBaseline
