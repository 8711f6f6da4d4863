import ApiBaseline.Json.Token
import ApiBaseline.Json.Writer

/-!
# Quoted texts are scanned back

The scanner collects a quoted text in code points. Each character contributes
its own code point, written plainly, behind a backslash or in four hexadecimal
digits (`scans_escapedChar`), and code points of characters hold no half of a
surrogate pair, so they are the characters again (`characters_toNat`). A quoted
text is therefore one token with the text as its value, whatever characters are
in it (`scans_quoted`).
-/

namespace ApiBaseline.Json.Token

/-! ## Runs of the scanner -/

/-- From `m` on the scanner reads the characters, completes the tokens and is
left in `m'`, whatever stands around them. -/
def Scans (m : Mode) (cs : List Char) (ts : List Token) (m' : Mode) : Prop :=
  ∀ done rest, m.scan done (cs ++ rest) = m'.scan (ts.reverse ++ done) rest

theorem Scans.nil (m : Mode) : Scans m [] [] m := fun _ _ => rfl

theorem Scans.cons {m m' m'' : Mode} {c : Char} {cs : List Char} {ts us : List Token}
    (h : m.step c = some (ts, m')) (h' : Scans m' cs us m'') :
    Scans m (c :: cs) (ts ++ us) m'' := by
  intro done rest
  rw [List.cons_append, Mode.scan, h]
  simp only [h' (ts.reverse ++ done) rest, List.reverse_append, List.append_assoc]

theorem Scans.append {m m' m'' : Mode} {cs ds : List Char} {ts us : List Token}
    (h : Scans m cs ts m') (h' : Scans m' ds us m'') :
    Scans m (cs ++ ds) (ts ++ us) m'' := by
  intro done rest
  rw [List.append_assoc, h, h', List.reverse_append, List.append_assoc]

/-! ## Code points of characters -/

theorem not_surrogate (c : Char) : (isLead c.toNat || isTrail c.toNat) = false := by
  have hvalid : c.toNat < 0xd800 ∨ 0xdfff < c.toNat ∧ c.toNat < 0x110000 := c.valid
  simp only [isLead, isTrail, Bool.or_eq_false_iff, Bool.and_eq_false_iff,
    decide_eq_false_iff_not]
  omega

/-- The code points of characters are these characters again. -/
theorem characters_toNat (cs : List Char) : characters? (cs.map Char.toNat) = some cs := by
  induction cs with
  | nil => rfl
  | cons c cs ih =>
      have hc := not_surrogate c
      cases cs with
      | nil =>
          simp only [List.map_cons, List.map_nil, characters?]
          rw [if_neg (by simp [hc]), Char.ofNat_toNat]
      | cons d ds =>
          simp only [Bool.or_eq_false_iff] at hc
          rw [List.map_cons, List.map_cons, characters?, if_neg (by simp [hc.1]),
            if_neg (by simp [hc.2]), ← List.map_cons, ih, Char.ofNat_toNat]
          rfl

theorem quoted_toNat (s : String) : quoted (s.toList.map Char.toNat) = .text s := by
  rw [quoted, characters_toNat]
  simp only [String.ofList_toList]

/-! ## Escapes -/

/-- Four hexadecimal digits contribute the number that they make up. -/
theorem scans_hexChars (units : List Nat) {n : Nat} (h : n < 0x10000) :
    Scans (.hex units 0 4) (hexChars n) [] (.quoted (n :: units)) := by
  have hstep : ∀ (code d missing : Nat), d < 16 → 1 < missing →
      Mode.step (.hex units code missing) (Nat.digitChar d)
        = some ([], .hex units (16 * code + d) (missing - 1)) := by
    intro code d missing hd hm
    rw [Mode.step, Text.hexValue?_digitChar d hd, Option.map_some, if_neg (by omega)]
  have hlast : ∀ (code d : Nat), d < 16 →
      Mode.step (.hex units code 1) (Nat.digitChar d)
        = some ([], .quoted ((16 * code + d) :: units)) := by
    intro code d hd
    rw [Mode.step, Text.hexValue?_digitChar d hd, Option.map_some, if_pos (Nat.le_refl 1)]
  have hn : 16 * (16 * (16 * (16 * 0 + n / 4096 % 16) + n / 256 % 16) + n / 16 % 16)
      + n % 16 = n := by omega
  have hscan := Scans.cons (hstep 0 (n / 4096 % 16) 4 (by omega) (by omega))
    (Scans.cons (hstep _ (n / 256 % 16) 3 (by omega) (by omega))
      (Scans.cons (hstep _ (n / 16 % 16) 2 (by omega) (by omega))
        (Scans.cons (hlast _ (n % 16) (by omega)) (Scans.nil _))))
  rwa [hn] at hscan

/-- An escape of one character contributes the code point that it names. -/
theorem scans_escape (units : List Nat) {e : Char} {u : Nat} (hu : e ≠ 'u')
    (h : escape? e = some u) : Scans (.quoted units) ['\\', e] [] (.quoted (u :: units)) := by
  have hback : Mode.step (.quoted units) '\\' = some ([], .escape units) := rfl
  have hescape : Mode.step (.escape units) e = some ([], .quoted (u :: units)) := by
    rw [Mode.step, if_neg hu, h]
    rfl
  exact Scans.cons hback (Scans.cons hescape (Scans.nil _))

/-- A character inside a text contributes its code point. -/
theorem scans_escapedChar (units : List Nat) (c : Char) :
    Scans (.quoted units) (escapedChar c) [] (.quoted (c.toNat :: units)) := by
  unfold escapedChar
  split
  · subst c; exact scans_escape units (by decide) rfl
  split
  · subst c; exact scans_escape units (by decide) rfl
  split
  · subst c; exact scans_escape units (by decide) rfl
  split
  · subst c; exact scans_escape units (by decide) rfl
  split
  · subst c; exact scans_escape units (by decide) rfl
  split
  · subst c; exact scans_escape units (by decide) rfl
  split
  · subst c; exact scans_escape units (by decide) rfl
  split
  · rename_i hc
    have hback : Mode.step (.quoted units) '\\' = some ([], .escape units) := rfl
    have hmark : Mode.step (.escape units) 'u' = some ([], .hex units 0 4) := rfl
    exact Scans.cons hback (Scans.cons hmark (scans_hexChars units (by omega)))
  · rename_i hquote hback _ _ _ _ _ hc
    have hplain : Mode.step (.quoted units) c = some ([], .quoted (c.toNat :: units)) := by
      rw [Mode.step, if_neg hquote, if_neg hback, if_neg hc]
    exact Scans.cons hplain (Scans.nil _)

theorem scans_escapedChars (units : List Nat) (cs : List Char) :
    Scans (.quoted units) (cs.flatMap escapedChar) []
      (.quoted ((cs.map Char.toNat).reverse ++ units)) := by
  induction cs generalizing units with
  | nil => exact Scans.nil _
  | cons c cs ih =>
      have hscan := (scans_escapedChar units c).append (ih (c.toNat :: units))
      simpa using hscan

/-- A quoted text is one token, and its value is the text. -/
theorem scans_quoted (s : String) :
    Scans .between (quotedChars s) [.scalar (.text s)] .between := by
  have hopen : Mode.step .between '"' = some ([], .quoted []) := rfl
  have hclose : Mode.step (.quoted (s.toList.map Char.toNat).reverse) '"'
      = some ([.scalar (.text s)], .between) := by
    rw [Mode.step, if_pos rfl, List.reverse_reverse, quoted_toNat]
  have hbody := scans_escapedChars [] s.toList
  rw [List.append_nil] at hbody
  exact Scans.cons hopen (hbody.append (Scans.cons hclose (Scans.nil _)))

end ApiBaseline.Json.Token
