import ApiBaseline.Proofs.Json.RoundTrip

/-!
# Integers in JSON

An integer is written with all its digits and no others, so its written form is a
word that stands for it (`isWord_ofInt`). An integer of 64 bits is read as the
constant that it is (`constant?_ofInt`): a zero has no sign, and nothing is left to
be read as a double.
-/

namespace ApiBaseline.Json.Numeral

/-! ## Digits -/

/-- The digit that a character stands for, if it is one. -/
def digitOf (c : Char) : Fin 10 :=
  ⟨(c.toNat - '0'.toNat) % 10, Nat.mod_lt _ (by decide)⟩

theorem val_digitOf_digitChar {d : Nat} (h : d < 10) : (digitOf (Nat.digitChar d)).val = d := by
  have hzero : '0'.toNat = 48 := rfl
  rw [digitOf, Fin.val_mk, Nat.toNat_digitChar_of_lt_ten h, hzero]
  omega

theorem val_digitOf {c : Char} (h : c.isDigit = true) :
    (digitOf c).val = c.toNat - '0'.toNat := by
  obtain ⟨-, hupper⟩ := Char.isDigit_iff_toNat.mp h
  have hdigits : '9'.toNat - '0'.toNat < 10 := by decide
  exact Nat.mod_eq_of_lt (Nat.lt_of_le_of_lt (Nat.sub_le_sub_right hupper _) hdigits)

/-- A run of digits is taken as a whole. -/
theorem takeDigits_append {cs rest : List Char} (h : ∀ c ∈ cs, c.isDigit = true)
    (hrest : ∀ c ∈ rest.head?, c.isDigit = false) :
    takeDigits (cs ++ rest) = (cs.map digitOf, rest) := by
  induction cs with
  | nil =>
      cases rest with
      | nil => rfl
      | cons c rest =>
          have hnone : digit? c = none := if_neg (by simp [hrest c rfl])
          rw [List.nil_append, takeDigits, hnone]
          rfl
  | cons c cs ih =>
      have hdigit : digit? c = some (digitOf c) := if_pos (h c List.mem_cons_self)
      rw [List.cons_append, takeDigits, hdigit, ih fun d hd => h d (List.mem_cons_of_mem c hd)]
      rfl

theorem takeDigits_of_digits {cs : List Char} (h : ∀ c ∈ cs, c.isDigit = true) :
    takeDigits cs = (cs.map digitOf, []) := by
  have hnone : ∀ c ∈ ([] : List Char).head?, c.isDigit = false := nofun
  simpa using takeDigits_append h hnone

theorem foldl_digitOf {cs : List Char} (h : ∀ c ∈ cs, c.isDigit = true) (n : Nat) :
    (cs.map digitOf).foldl (fun n d => 10 * n + d.val) n = Nat.ofDigitChars 10 cs n := by
  induction cs generalizing n with
  | nil => rfl
  | cons c cs ih =>
      rw [List.map_cons, List.foldl_cons, ih fun d hd => h d (List.mem_cons_of_mem c hd),
        val_digitOf (h c List.mem_cons_self)]
      rfl

theorem isDigit_of_mem_digitChars {n : Nat} {c : Char} (h : c ∈ digitChars n) :
    c.isDigit = true :=
  Nat.isDigit_of_mem_toDigits (by decide) (by decide) h

theorem ofDigits_digitChars (n : Nat) : ofDigits ((digitChars n).map digitOf) = n :=
  (foldl_digitOf (fun _ hc => isDigit_of_mem_digitChars hc) 0).trans
    (Nat.ofDigitChars_toDigits (by decide) (by decide))

/-- Only zero begins with a zero. -/
theorem exists_head_digitChars {n : Nat} (hn : 0 < n) :
    ∃ c cs, digitChars n = c :: cs ∧ digitOf c ≠ 0 := by
  induction n using Nat.strongRecOn with
  | ind n ih =>
      by_cases hlt : n < 10
      · refine ⟨Nat.digitChar n, [], Nat.toDigits_of_lt_base hlt, ?_⟩
        intro hzero
        have hval := congrArg Fin.val hzero
        rw [val_digitOf_digitChar hlt] at hval
        exact Nat.ne_of_gt hn hval
      -- All digits but the last one are those of `n / 10`.
      · obtain ⟨c, cs, hcs, hc⟩ := ih (n / 10) (by omega) (by omega)
        refine ⟨c, cs ++ [Nat.digitChar (n % 10)], ?_, hc⟩
        rw [digitChars] at hcs
        rw [digitChars, Nat.toDigits_of_base_le (by decide) (by omega), hcs, List.cons_append]

theorem takeWhole?_digitChars (n : Nat) : takeWhole? (digitChars n) = some (n, []) := by
  have htake := takeDigits_of_digits fun c (hc : c ∈ digitChars n) => isDigit_of_mem_digitChars hc
  have hvalue := ofDigits_digitChars n
  rcases Nat.eq_zero_or_pos n with rfl | hn
  · rfl
  · obtain ⟨c, cs, hcs, hc⟩ := exists_head_digitChars hn
    rw [hcs, List.map_cons] at htake hvalue
    rw [takeWhole?, hcs, htake]
    cases cs with
    | nil => exact congrArg (fun m => some (m, [])) hvalue
    | cons d cs =>
        rw [List.map_cons] at hvalue ⊢
        dsimp only
        rw [if_neg hc, hvalue]

/-! ## Signs -/

theorem chars_ofInt (n : Int) : (ofInt n).chars = signedChars n := by
  by_cases hn : n < 0
  · simp [ofInt, chars, signedChars, hn, fractionChars, exponentChars]
  · simp [ofInt, chars, signedChars, hn, fractionChars, exponentChars]

theorem takeSign_signedChars (n : Int) :
    takeSign (signedChars n) = (decide (n < 0), digitChars n.natAbs) := by
  by_cases hn : n < 0
  · rw [signedChars, if_pos hn, decide_eq_true hn, takeSign]
  · rw [signedChars, if_neg hn, decide_eq_false hn]
    have hdigits := fun c (hc : c ∈ digitChars n.natAbs) => isDigit_of_mem_digitChars hc
    cases hcs : digitChars n.natAbs with
    | nil => rfl
    | cons c cs =>
        have hne : c ≠ '-' := by
          rintro rfl
          exact absurd (hdigits '-' (hcs ▸ List.mem_cons_self)) (by decide)
        rw [takeSign.eq_def]
        split
        · next heq => exact absurd (List.cons.inj heq).1 hne
        · rfl

theorem ofChars?_ofInt (n : Int) : ofChars? (ofInt n).chars = some (ofInt n) := by
  rw [chars_ofInt, ofChars?, takeSign_signedChars]
  dsimp only
  rw [takeWhole?_digitChars]
  rfl

theorem eq_minus_or_isDigit {n : Int} {c : Char} (h : c ∈ signedChars n) :
    c = '-' ∨ c.isDigit = true := by
  rw [signedChars] at h
  split at h
  · rcases List.mem_cons.mp h with rfl | h
    · exact Or.inl rfl
    · exact Or.inr (isDigit_of_mem_digitChars h)
  · exact Or.inr (isDigit_of_mem_digitChars h)

theorem endsWord_of_isDigit {c : Char} (h : c.isDigit = true) :
    Token.Mode.endsWord c = false := by
  have hne : ∀ d : Char, d.isDigit = false → c ≠ d := by
    rintro d hd rfl
    exact absurd (h.symm.trans hd) Bool.false_ne_true.symm
  simp [Token.Mode.endsWord, Token.isSpace, Token.punctuation?, hne]

/-- A word that is read as a numeral is none of the literals. -/
theorem isWord_of_ofChars? {cs : List Char} {n : Numeral} (hchars : ofChars? cs = some n)
    (hends : ∀ c ∈ cs, Token.Mode.endsWord c = false) : IsWord cs (number n) := by
  have hne : ∀ ds, ofChars? ds = none → cs ≠ ds := by
    rintro ds hds rfl
    cases hds.symm.trans hchars
  refine ⟨hne [] rfl, hends, ?_⟩
  rw [Token.word?, if_neg (hne _ rfl), if_neg (hne _ rfl), if_neg (hne _ rfl), hchars]
  rfl

/-- The written form of an integer is a word that stands for it. -/
theorem isWord_ofInt (n : Int) : IsWord (ofInt n).chars (Json.ofInt n) := by
  refine isWord_of_ofChars? (ofChars?_ofInt n) fun c hc => ?_
  rw [chars_ofInt] at hc
  rcases eq_minus_or_isDigit hc with rfl | hdigit
  · decide
  · exact endsWord_of_isDigit hdigit

theorem integer?_ofInt (n : Int) : (ofInt n).integer? = some n := by
  have hsign : ¬ ((ofInt n).fraction ≠ [] ∨ (ofInt n).exponent ≠ none
      ∨ (ofInt n).negative = true ∧ (ofInt n).whole = 0) := by
    simp only [ofInt, decide_eq_true_eq]
    rintro (h | h | ⟨hneg, hzero⟩)
    · exact h rfl
    · exact h rfl
    · omega
  have hvalue : (if (ofInt n).negative then -((ofInt n).whole : Int) else (ofInt n).whole) = n := by
    simp only [ofInt, decide_eq_true_eq]
    omega
  rw [integer?, if_neg hsign, hvalue]

/-- An integer is read as the constant that it is. -/
theorem constant?_ofInt {n : Int} {c : Constant} (h : Constant.ofInt? n = some c) :
    (ofInt n).constant? = some c := by
  rw [constant?, integer?_ofInt, Option.bind_some, h]

end ApiBaseline.Json.Numeral
