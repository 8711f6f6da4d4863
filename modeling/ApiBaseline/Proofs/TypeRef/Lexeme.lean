import ApiBaseline.TypeRef.Token

/-!
# The tokens of a text without offsets

`scan` walks a text with a byte offset and a begun name. What it finds can be
said without either: drop the blanks, take each delimiter for itself and each
maximal run of other characters as one name (`lexemes`). The scanner is tied to
that description in two halves: whenever it comes to the end of the text its
tokens are the lexemes (`scan_lexemes`), and it comes to the end when no blank
takes several bytes (`scan_finish`).
-/

namespace ApiBaseline.TypeRef

/-! ## Names -/

/-- A character of a name: neither blank nor a delimiter. -/
def isNameChar (c : Char) : Bool :=
  !Text.isBlank c && (Token.delimiter? c).isNone

/-- A text that is one name: some characters, all of them name characters. -/
def isName (s : String) : Bool := !s.toList.isEmpty && s.toList.all isNameChar

/-- A token that a text can yield; only a name says anything. -/
def Token.isWritten : Token → Bool
  | .name text => isName text
  | _ => true

theorem isNameChar_eq_false_iff {c : Char} :
    isNameChar c = false ↔ Text.isBlank c = true ∨ ∃ t, Token.delimiter? c = some t := by
  cases hb : Text.isBlank c <;> cases hd : Token.delimiter? c <;> simp [isNameChar, hb, hd]

theorem isName_ofList {cs : List Char} (hne : cs ≠ []) (h : ∀ c ∈ cs, isNameChar c = true) :
    isName (String.ofList cs) = true := by
  simp only [isName, String.toList_ofList, Bool.and_eq_true, Bool.not_eq_true',
    List.isEmpty_eq_false_iff, List.all_eq_true]
  exact ⟨hne, h⟩

theorem delimiter_of_isBlank {c : Char} (h : Text.isBlank c = true) :
    Token.delimiter? c = none := by
  unfold Token.delimiter?
  split <;> first | rfl | (revert h; decide)

theorem delimiter_isWritten {c : Char} {t : Token} (h : Token.delimiter? c = some t) :
    t.isWritten = true := by
  unfold Token.delimiter? at h
  split at h <;> (cases h; try rfl)

/-! ## Lexemes -/

/-- A text cut into maximal runs of the characters of a class and, between
them, what single characters stand for, if they stand for anything. -/
def cut {α : Type} (isPart : Char → Bool) (ofRun : List Char → α)
    (ofSingle? : Char → Option α) : List Char → List α
  | [] => []
  | c :: cs =>
    if isPart c then
      ofRun (c :: cs.takeWhile isPart)
        :: cut isPart ofRun ofSingle? (cs.dropWhile isPart)
    else (ofSingle? c).toList ++ cut isPart ofRun ofSingle? cs
termination_by cs => cs.length
decreasing_by
  all_goals simp only [List.length_cons]
  · have := (List.dropWhile_suffix isPart (l := cs)).length_le
    omega
  · omega

/-- The tokens of a text: delimiters and maximal runs of name characters, in
order; blanks are dropped. -/
def lexemes (cs : List Char) : List Token :=
  cut isNameChar (fun run => .name (String.ofList run)) Token.delimiter? cs

theorem lexemes_nil : lexemes [] = [] := by rw [lexemes, cut]

theorem lexemes_run (c : Char) (cs : List Char) (h : isNameChar c = true) :
    lexemes (c :: cs) = .name (String.ofList (c :: cs.takeWhile isNameChar))
      :: lexemes (cs.dropWhile isNameChar) := by
  rw [lexemes, cut, if_pos h]
  rfl

theorem lexemes_single (c : Char) (cs : List Char) (h : isNameChar c = false) :
    lexemes (c :: cs) = (Token.delimiter? c).toList ++ lexemes cs := by
  rw [lexemes, cut, if_neg (by simp [h])]
  rfl

theorem lexemes_blank {c : Char} (cs : List Char) (h : Text.isBlank c = true) :
    lexemes (c :: cs) = lexemes cs := by
  rw [lexemes_single c cs (isNameChar_eq_false_iff.mpr (Or.inl h)), delimiter_of_isBlank h]
  rfl

theorem lexemes_delimiter {c : Char} {t : Token} (cs : List Char)
    (h : Token.delimiter? c = some t) : lexemes (c :: cs) = t :: lexemes cs := by
  rw [lexemes_single c cs (isNameChar_eq_false_iff.mpr (Or.inr ⟨t, h⟩)), h]
  rfl

/-- What stands behind a name: the end, or a character that is no part of it. -/
def EndsName (cs : List Char) : Prop := ∀ c ∈ cs.head?, isNameChar c = false

theorem endsName_nil : EndsName [] := nofun

theorem endsName_cons {c : Char} {cs : List Char} (h : isNameChar c = false) :
    EndsName (c :: cs) := by
  intro d hd
  obtain rfl := Option.some.inj hd
  exact h

theorem EndsName.span {cs : List Char} (h : EndsName cs) :
    cs.takeWhile isNameChar = [] ∧ cs.dropWhile isNameChar = cs := by
  cases cs with
  | nil => exact ⟨rfl, rfl⟩
  | cons c cs =>
      have hc : isNameChar c = false := h c rfl
      simp [hc]

/-- A run of name characters is one token when nothing continues it. -/
theorem lexemes_name {run cs : List Char} (hne : run ≠ [])
    (hrun : ∀ c ∈ run, isNameChar c = true) (hcs : EndsName cs) :
    lexemes (run ++ cs) = .name (String.ofList run) :: lexemes cs := by
  cases run with
  | nil => exact absurd rfl hne
  | cons c run =>
      have hc : isNameChar c = true := hrun c List.mem_cons_self
      have hrun' : ∀ d ∈ run, isNameChar d = true := fun d hd =>
        hrun d (List.mem_cons_of_mem _ hd)
      obtain ⟨htake, hdrop⟩ := hcs.span
      rw [List.cons_append, lexemes_run c _ hc, List.takeWhile_append_of_pos hrun',
        List.dropWhile_append_of_pos hrun', htake, hdrop, List.append_nil]

/-- Every lexeme is a token that can be written. -/
theorem lexemes_isWritten (cs : List Char) : ∀ t ∈ lexemes cs, t.isWritten = true := by
  unfold lexemes
  fun_induction cut with
  | case1 => exact fun t ht => (List.not_mem_nil ht).elim
  | case2 c cs hc ih =>
      intro t ht
      rcases List.mem_cons.mp ht with rfl | ht'
      · refine isName_ofList (List.cons_ne_nil _ _) fun d hd => ?_
        rcases List.mem_cons.mp hd with rfl | hd'
        · exact hc
        · exact List.all_eq_true.mp List.all_takeWhile d hd'
      · exact ih t ht'
  | case3 c cs hc ih =>
      intro t ht
      rcases List.mem_append.mp ht with ht' | ht'
      · exact delimiter_isWritten (Option.mem_toList.mp ht')
      · exact ih t ht'

/-! ## The scanner -/

/-- The characters of a begun name, in order. -/
def Pending.run : Pending → List Char
  | none => []
  | some (_, cs) => cs.reverse

/-- A begun name has a character, and name characters only. -/
def Pending.WellFormed : Pending → Prop
  | none => True
  | some (_, cs) => cs ≠ [] ∧ ∀ c ∈ cs, isNameChar c = true

theorem Pending.WellFormed.push {p : Pending} (h : p.WellFormed) (offset : Nat) {c : Char}
    (hc : isNameChar c = true) : (p.push offset c).WellFormed := by
  cases p with
  | none => exact ⟨List.cons_ne_nil _ _, by simpa using hc⟩
  | some q =>
      refine ⟨List.cons_ne_nil _ _, fun d hd => ?_⟩
      rcases List.mem_cons.mp hd with rfl | hd'
      · exact hc
      · exact h.2 d hd'

theorem Pending.run_push (p : Pending) (offset : Nat) (c : Char) :
    (p.push offset c).run = p.run ++ [c] := by
  cases p with
  | none => rfl
  | some q => simp [Pending.push, Pending.run]

/-- A begun name ends in front of anything that does not continue it. -/
theorem Pending.lexemes_run {p : Pending} (h : p.WellFormed) {cs : List Char}
    (hcs : EndsName cs) : lexemes (p.run ++ cs) = p.flush.map (·.2) ++ lexemes cs := by
  cases p with
  | none => rfl
  | some q =>
      rw [Pending.run, lexemes_name (by simpa using h.1) (by simpa using h.2) hcs]
      rfl

/-- The text came to its end: no blank left the cursor inside a character. -/
def Stop.isFinish : Stop → Bool
  | .finish _ => true
  | .split _ => false

/-- Where the scanner reaches the end of the text its tokens are the lexemes,
those of a begun name included. -/
theorem scan_lexemes (cs : List Char) {offset : Nat} {p : Pending} (hp : p.WellFormed)
    (h : (scan offset p cs).2.isFinish = true) :
    (scan offset p cs).1.map (·.2) = lexemes (p.run ++ cs) := by
  induction cs generalizing offset p with
  | nil => rw [Pending.lexemes_run hp endsName_nil, lexemes_nil, List.append_nil]; rfl
  | cons c cs ih =>
      rw [scan] at h ⊢
      by_cases hb : Text.isBlank c = true
      · have hends : EndsName (c :: cs) :=
          endsName_cons (isNameChar_eq_false_iff.mpr (Or.inl hb))
        by_cases hs : c.utf8Size = 1
        · rw [if_pos hb, if_pos hs] at h ⊢
          rw [Pending.lexemes_run hp hends, lexemes_blank cs hb]
          simp only [List.map_append, List.append_cancel_left_eq]
          exact ih (p := none) trivial h
        · rw [if_pos hb, if_neg hs] at h
          cases h
      · rw [if_neg hb] at h ⊢
        cases hd : Token.delimiter? c with
        | some t =>
            have hends : EndsName (c :: cs) :=
              endsName_cons (isNameChar_eq_false_iff.mpr (Or.inr ⟨t, hd⟩))
            simp only [hd] at h ⊢
            rw [Pending.lexemes_run hp hends, lexemes_delimiter cs hd]
            simp only [List.map_append, List.map_cons, List.append_cancel_left_eq,
              List.cons.injEq, true_and]
            exact ih (p := none) trivial h
        | none =>
            -- The begun name takes the character along; the lexemes do not notice.
            simp only [hd] at h ⊢
            have hc : isNameChar c = true := by simp [isNameChar, hb, hd]
            rw [ih (hp.push offset hc) h, Pending.run_push, List.append_assoc]
            rfl

/-- The scanner reaches the end of a text whose blanks take one byte each. -/
theorem scan_finish (cs : List Char) (h : ∀ c ∈ cs, Text.isBlank c = true → c.utf8Size = 1)
    {offset : Nat} {p : Pending} : (scan offset p cs).2.isFinish = true := by
  induction cs generalizing offset p with
  | nil => rfl
  | cons c cs ih =>
      have hcs : ∀ {o : Nat} {q : Pending}, (scan o q cs).2.isFinish = true :=
        ih fun d hd => h d (List.mem_cons_of_mem _ hd)
      rw [scan]
      by_cases hb : Text.isBlank c = true
      · rw [if_pos hb, if_pos (h c List.mem_cons_self hb)]
        exact hcs
      · rw [if_neg hb]
        cases Token.delimiter? c with
        | some t => exact hcs
        | none => exact hcs

end ApiBaseline.TypeRef
