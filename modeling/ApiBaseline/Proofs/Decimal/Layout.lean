import ApiBaseline.Proofs.Decimal.Shortest
import ApiBaseline.Proofs.Json.Exact

/-!
# Digits laid out

Zeros that are trimmed at the end, zeros that fill the places up to the point and an
exponent that takes the place of them do not change what digits stand for. So either layout
is a numeral that stands for them (`readsAs_positional`, `readsAs_scientific`).
-/

namespace ApiBaseline.Decimal

open Json Json.Numeral

/-! ## Texts of numbers -/

/-- With or without a sign in front, the text is a numeral with the exponent that stands for
the number. -/
def ReadsAs (cs : List Char) (exponent : Option Int) (q : ℚ) : Prop :=
  ∀ negative : Bool, ∃ n : Numeral,
    ofChars? ((if negative then ['-'] else []) ++ cs) = some n
      ∧ n.negative = negative ∧ n.exponent = exponent ∧ n.magnitude = q

theorem readsAs_parts {ws fs rest : List Char} (hws : IsWhole ws)
    (hfs : ∀ c ∈ fs, c.isDigit = true) (hrest : EndsDigits rest) {exponent : Option Int}
    (hexponent : exponent? rest = some exponent) :
    ReadsAs (ws ++ (pointed fs ++ rest)) exponent
      (placed (ws ++ fs) (ws.length + exponent.getD 0)) :=
  fun _ => ⟨_, ofChars?_parts hws hfs hrest hexponent, rfl, rfl, magnitude_parts hfs exponent⟩

/-- Digits and a point, with no exponent. -/
theorem readsAs_pointed {ws fs : List Char} (hws : IsWhole ws)
    (hfs : ∀ c ∈ fs, c.isDigit = true) :
    ReadsAs (ws ++ pointed fs) none (placed (ws ++ fs) ws.length) := by
  have hends : EndsDigits [] := nofun
  have hread := readsAs_parts hws hfs hends rfl
  rwa [List.append_nil, Option.getD_none, add_zero] at hread

/-! ## Trimmed digits -/

/-- Digits that begin with another one than zero. -/
structure IsSignificand (cs : List Char) : Prop where
  digits : ∀ c ∈ cs, c.isDigit = true
  head : ∃ d ds, cs = d :: ds ∧ digitOf d ≠ 0

theorem isDigit_of_mem_zeros {n : Nat} : ∀ c ∈ List.replicate n '0', c.isDigit = true := by
  intro c hc
  rw [List.eq_of_mem_replicate hc]
  rfl

/-- What is dropped at the end is a row of zeros. -/
theorem exists_zeros (cs : List Char) :
    ∃ z, cs = (cs.reverse.dropWhile (· == '0')).reverse ++ List.replicate z '0' := by
  have hzeros : cs.reverse.takeWhile (· == '0')
      = List.replicate (cs.reverse.takeWhile (· == '0')).length '0' :=
    List.eq_replicate_iff.mpr ⟨rfl, fun c hc =>
      beq_iff_eq.mp (List.all_eq_true.mp List.all_takeWhile c hc)⟩
  refine ⟨(cs.reverse.takeWhile (· == '0')).length, ?_⟩
  rw [← List.reverse_replicate, ← hzeros, ← List.reverse_append,
    List.takeWhile_append_dropWhile, List.reverse_reverse]

/-- A positive number keeps its first digit when it is trimmed. -/
theorem exists_trimZeros {n : Nat} (hn : 0 < n) :
    IsSignificand (trimZeros (Nat.toDigits 10 n))
      ∧ ∃ z, Nat.toDigits 10 n = trimZeros (Nat.toDigits 10 n) ++ List.replicate z '0' := by
  obtain ⟨z, hsplit⟩ := exists_zeros (Nat.toDigits 10 n)
  unfold trimZeros
  generalize ((Nat.toDigits 10 n).reverse.dropWhile (· == '0')).reverse = front at hsplit ⊢
  cases front with
  | nil =>
      have hvalue : digitsValue (Nat.toDigits 10 n) = n := Nat.ofDigitChars_ten_toDigits
      rw [hsplit, List.nil_append, digitsValue_zeros] at hvalue
      exact absurd hvalue hn.ne
  | cons c front =>
      obtain ⟨d, ds, hhead, hd⟩ := exists_head_digitChars hn
      rw [digitChars, hsplit, List.cons_append] at hhead
      have hdigits : ∀ e ∈ c :: front, e.isDigit = true := by
        intro e he
        have hmem : e ∈ Nat.toDigits 10 n := hsplit ▸ List.mem_append_left _ he
        exact isDigit_of_mem_digitChars hmem
      exact ⟨⟨hdigits, c, front, rfl, (List.cons.inj hhead).1 ▸ hd⟩, z, hsplit⟩

/-- Trimmed digits stand for the same number. -/
theorem Digits.toRat_eq_placed {d : Digits} (hd : 0 < d.value) :
    d.toRat = placed (trimZeros (Nat.toDigits 10 d.value)) d.point := by
  obtain ⟨-, z, hz⟩ := exists_trimZeros hd
  rw [← placed_append_zeros _ z, ← hz, placed, toRat, digitCount, digitsValue,
    Nat.ofDigitChars_ten_toDigits]

/-! ## Layouts -/

section

variable {cs : List Char} (hcs : IsSignificand cs)

include hcs

theorem IsSignificand.isWhole_append {ds : List Char} (hds : ∀ c ∈ ds, c.isDigit = true) :
    IsWhole (cs ++ ds) := by
  obtain ⟨d, rest, rfl, hd⟩ := hcs.head
  exact ⟨List.forall_mem_append.mpr ⟨hcs.digits, hds⟩, d, rest ++ ds, rfl, Or.inr hd⟩

theorem IsSignificand.isWhole_take {p : Nat} (hp : 0 < p) : IsWhole (cs.take p) := by
  obtain ⟨d, rest, hrest, hd⟩ := hcs.head
  obtain ⟨p, rfl⟩ := Nat.exists_eq_succ_of_ne_zero hp.ne'
  refine ⟨fun c hc => hcs.digits c (List.mem_of_mem_take hc), d, rest.take p, ?_, Or.inr hd⟩
  rw [hrest, List.take_succ_cons]

theorem IsSignificand.digits_drop (p : Nat) : ∀ c ∈ cs.drop p, c.isDigit = true :=
  fun c hc => hcs.digits c (List.mem_of_mem_drop hc)

end

theorem isWhole_zero : IsWhole ['0'] :=
  ⟨List.forall_mem_singleton.mpr rfl, '0', [], rfl, Or.inl rfl⟩

theorem pointed_of_ne_nil {fs : List Char} (h : fs ≠ []) : pointed fs = '.' :: fs := by
  cases fs with
  | nil => exact absurd rfl h
  | cons f fs => rfl

theorem mem_pointed {fs : List Char} {c : Char} (h : c ∈ pointed fs) : c = '.' ∨ c ∈ fs := by
  cases fs with
  | nil => exact Or.inr h
  | cons f fs => exact List.mem_cons.mp h

/-- Zeros behind the point. -/
theorem readsAs_below {cs : List Char} (hcs : IsSignificand cs) (zeros : Nat) :
    ReadsAs ('0' :: '.' :: (List.replicate zeros '0' ++ cs)) none (placed cs (-zeros)) := by
  have hdigits := List.forall_mem_append.mpr ⟨isDigit_of_mem_zeros (n := zeros), hcs.digits⟩
  have hread := readsAs_pointed isWhole_zero hdigits
  obtain ⟨d, ds, hcons, -⟩ := hcs.head
  have hzeros : ['0'] ++ (List.replicate zeros '0' ++ cs)
      = List.replicate (zeros + 1) '0' ++ cs := by
    rw [List.replicate_succ, List.singleton_append, List.cons_append]
  have hpoint : ((['0'].length : Nat) - (zeros + 1 : Nat) : Int) = -zeros := by
    rw [List.length_singleton]
    push_cast
    ring
  rw [hzeros, placed_zeros_append, hpoint, pointed_of_ne_nil (by simp [hcons])] at hread
  exact hread

/-- **Digits up to the point.** -/
theorem Digits.readsAs_positional {d : Digits} (hd : 0 < d.value) :
    ReadsAs d.positional none d.toRat := by
  obtain ⟨hcs, -⟩ := exists_trimZeros hd
  rw [d.toRat_eq_placed hd, positional]
  generalize trimZeros (Nat.toDigits 10 d.value) = cs at *
  split
  · next hpoint =>
    rw [hpoint]
    exact readsAs_below hcs 0
  · next p hp hpoint =>
    rw [hpoint]
    split
    · next hle =>
      have hread := readsAs_pointed (hcs.isWhole_append (isDigit_of_mem_zeros (n := p - cs.length)))
        (List.forall_mem_nil _)
      rw [List.append_nil, placed_append_zeros, List.length_append, List.length_replicate,
        Nat.add_sub_cancel' hle] at hread
      rwa [pointed, List.append_nil] at hread
    · next hlt =>
      have hpos : 0 < p := Nat.pos_of_ne_zero hp
      have hread := readsAs_pointed (hcs.isWhole_take hpos) (hcs.digits_drop p)
      rw [List.take_append_drop, List.length_take_of_le (Nat.le_of_not_le hlt),
        pointed_of_ne_nil (by simpa using hlt)] at hread
      exact hread
  · next p hpoint =>
    rw [hpoint, Int.negSucc_eq, ← Nat.cast_succ]
    exact readsAs_below hcs (p + 1)

/-! ## Exponents -/

/-- The digits of an exponent, filled up with zeros. -/
def Layout.exponentDigits (layout : Layout) (e : Int) : List Char :=
  List.replicate (layout.exponentWidth - (Nat.toDigits 10 e.natAbs).length) '0'
    ++ Nat.toDigits 10 e.natAbs

/-- An exponent with its mark and its sign. -/
def Layout.exponentChars (layout : Layout) (e : Int) : List Char :=
  layout.mark :: (if e < 0 then '-' else '+') :: layout.exponentDigits e

theorem Digits.scientific_eq (layout : Layout) (d : Digits) : d.scientific layout
    = (trimZeros (Nat.toDigits 10 d.value)).take 1
      ++ (pointed ((trimZeros (Nat.toDigits 10 d.value)).drop 1)
        ++ layout.exponentChars (d.point - 1)) := by
  simp only [scientific, Layout.exponentChars, Layout.exponentDigits, List.append_assoc,
    List.cons_append]
  cases (trimZeros (Nat.toDigits 10 d.value)).drop 1 <;> rfl

section

variable (layout : Layout) (e : Int)

theorem isDigit_of_mem_exponentDigits : ∀ c ∈ layout.exponentDigits e, c.isDigit = true :=
  List.forall_mem_append.mpr ⟨isDigit_of_mem_zeros, fun _ hc => isDigit_of_mem_digitChars hc⟩

theorem le_length_exponentDigits : layout.exponentWidth ≤ (layout.exponentDigits e).length := by
  rw [Layout.exponentDigits, List.length_append, List.length_replicate]
  omega

theorem digitsValue_exponentDigits : digitsValue (layout.exponentDigits e) = e.natAbs := by
  rw [Layout.exponentDigits, digitsValue_append, digitsValue_zeros, Nat.zero_mul, Nat.zero_add]
  exact Nat.ofDigitChars_ten_toDigits

theorem exponentDigits_ne_nil : layout.exponentDigits e ≠ [] :=
  List.append_ne_nil_of_right_ne_nil _ Nat.toDigits_ne_nil

end

theorem exponentValue?_of_digits {ds : List Char} (hdigits : ∀ c ∈ ds, c.isDigit = true)
    (hne : ds ≠ []) (negative : Bool) :
    exponentValue? ((if negative then '-' else '+') :: ds)
      = some (if negative then -(digitsValue ds : Int) else digitsValue ds) := by
  have htake := takeDigits_of_digits hdigits
  obtain ⟨d, rest, rfl⟩ := List.exists_cons_of_ne_nil hne
  rw [← ofDigits_map_digitOf hdigits]
  rw [List.map_cons] at htake ⊢
  cases negative with
  | true => simp [exponentValue?, takeSign, htake]
  | false => simp [exponentValue?, htake]

/-- An exponent is read as it was written. -/
theorem exponentValue?_exponentDigits (layout : Layout) (e : Int) :
    exponentValue? ((if e < 0 then '-' else '+') :: layout.exponentDigits e) = some e := by
  have hread := exponentValue?_of_digits (isDigit_of_mem_exponentDigits layout e)
    (exponentDigits_ne_nil layout e) (decide (e < 0))
  simp only [decide_eq_true_eq, digitsValue_exponentDigits] at hread
  rw [hread]
  congr 1
  omega

/-- **Digits with an exponent.** -/
theorem Digits.readsAs_scientific {layout : Layout} (hmark : layout.mark = 'E') {d : Digits}
    (hd : 0 < d.value) : ReadsAs (d.scientific layout) (some (d.point - 1)) d.toRat := by
  obtain ⟨hcs, -⟩ := exists_trimZeros hd
  rw [d.toRat_eq_placed hd, scientific_eq]
  generalize trimZeros (Nat.toDigits 10 d.value) = cs at *
  have hends : EndsDigits (layout.exponentChars (d.point - 1)) := by
    intro c hc
    obtain rfl := Option.some.inj hc
    rw [hmark]
    decide
  have hexponent : exponent? (layout.exponentChars (d.point - 1)) = some (some (d.point - 1)) := by
    rw [Layout.exponentChars, exponent?, if_pos (Or.inr hmark), exponentValue?_exponentDigits]
    rfl
  have hread := readsAs_parts (hcs.isWhole_take Nat.one_pos) (hcs.digits_drop 1) hends hexponent
  have hpoint : ((cs.take 1).length + (some (d.point - 1)).getD 0 : Int) = d.point := by
    obtain ⟨c, ds, rfl, -⟩ := hcs.head
    rw [List.take_succ_cons, List.take_zero, List.length_singleton, Option.getD_some]
    omega
  rwa [List.take_append_drop, hpoint] at hread

end ApiBaseline.Decimal
