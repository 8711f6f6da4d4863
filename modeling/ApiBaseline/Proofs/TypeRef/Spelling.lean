import ApiBaseline.Proofs.TypeRef.Lexeme
import ApiBaseline.TypeRef.Printer

/-!
# The tokens of a reference

A reference has a token list of its own (`marks`), defined on its structure and
not through its text. The display form of a well-formed reference consists of
exactly these tokens (`lexemes_display`), whatever the names in it are: between
two names there is always a delimiter, and a name has no character that a
scanner would take for something else.
-/

namespace ApiBaseline.TypeRef

/-! ## Well-formed references -/

mutual

/-- Every name in the reference can be written as one name, and every array has
a dimension. -/
def isWellFormed : TypeRef → Bool
  | named name args => isName name && areWellFormed args
  | param name => isName name
  | array element rank => isWellFormed element && decide (1 ≤ rank)
  | byRef target => isWellFormed target
  | pointer target => isWellFormed target

def areWellFormed : List TypeRef → Bool
  | [] => true
  | t :: ts => isWellFormed t && areWellFormed ts

end

theorem areWellFormed_eq_all (ts : List TypeRef) :
    areWellFormed ts = ts.all isWellFormed := by
  induction ts with
  | nil => rfl
  | cons t ts ih => rw [areWellFormed, ih, List.all_cons]

theorem areWellFormed_append (ts us : List TypeRef) :
    areWellFormed (ts ++ us) = (areWellFormed ts && areWellFormed us) := by
  induction ts with
  | nil => rfl
  | cons t ts ih => rw [List.cons_append, areWellFormed, areWellFormed, ih, Bool.and_assoc]

/-! ## Tokens -/

mutual

def marks : TypeRef → List Token
  | named name args => .name name :: argumentMarks args
  | param name => [.bang, .name name]
  | array element rank =>
    marks element ++ .openBracket :: List.replicate (rank - 1) .comma ++ [.closeBracket]
  | byRef target => marks target ++ [.ampersand]
  | pointer target => marks target ++ [.star]

/-- The tokens of an argument list, brackets included. -/
def argumentMarks : List TypeRef → List Token
  | [] => []
  | t :: ts => .less :: marks t ++ furtherMarks ts ++ [.greater]

/-- The tokens of further arguments, each behind a comma. -/
def furtherMarks : List TypeRef → List Token
  | [] => []
  | t :: ts => .comma :: marks t ++ furtherMarks ts

end

/-- The tokens of an argument list seen from its end: each argument but the
last one has its comma behind it. -/
theorem argumentMarks_concat (ts : List TypeRef) (last : TypeRef) :
    argumentMarks (ts ++ [last])
      = .less :: ts.flatMap (fun t => marks t ++ [.comma]) ++ marks last ++ [.greater] := by
  have key : ∀ (us : List TypeRef) (u : TypeRef),
      marks u ++ furtherMarks (us ++ [last])
        = (u :: us).flatMap (fun t => marks t ++ [.comma]) ++ marks last := by
    intro us
    induction us with
    | nil => intro u; simp [furtherMarks]
    | cons v us ih =>
        intro u
        rw [List.flatMap_cons, List.append_assoc, ← ih v]
        simp [furtherMarks]
  cases ts with
  | nil => simp [argumentMarks, furtherMarks]
  | cons t ts =>
      rw [List.cons_append, argumentMarks, List.cons_append, key ts t]
      rfl

/-! ## The display form -/

theorem isName_toList {s : String} (h : isName s = true) :
    s.toList ≠ [] ∧ ∀ c ∈ s.toList, isNameChar c = true := by
  simp only [isName, Bool.and_eq_true, Bool.not_eq_true', List.isEmpty_eq_false_iff,
    List.all_eq_true] at h
  exact h

theorem lexemes_isName {s : String} (h : isName s = true) {cs : List Char}
    (hcs : EndsName cs) : lexemes (s.toList ++ cs) = .name s :: lexemes cs := by
  obtain ⟨hne, hall⟩ := isName_toList h
  rw [lexemes_name hne hall hcs, String.ofList_toList]

theorem lexemes_replicate {c : Char} {t : Token} (h : Token.delimiter? c = some t) (n : Nat)
    (cs : List Char) : lexemes (List.replicate n c ++ cs) = List.replicate n t ++ lexemes cs := by
  induction n with
  | zero => rfl
  | succ n ih =>
      rw [List.replicate_succ, List.cons_append, lexemes_delimiter _ h, ih]
      rfl

/-- The characters of a list whose first part is `part`. -/
theorem intercalate_toList (part : String) (parts : List String) :
    (", ".intercalate (part :: parts)).toList
      = part.toList ++ parts.flatMap fun p => ',' :: ' ' :: p.toList := by
  induction parts generalizing part with
  | nil => simp [String.intercalate_singleton]
  | cons next parts ih =>
      rw [String.intercalate_cons_cons, String.toList_append, String.toList_append, ih]
      simp

/-- The characters of a list in angle brackets whose first part is `part`. -/
theorem angled_toList (part : String) (parts : List String) :
    (angled (part :: parts)).toList
      = '<' :: part.toList ++ parts.flatMap (fun p => ',' :: ' ' :: p.toList) ++ ['>'] := by
  show ("<" ++ ", ".intercalate (part :: parts) ++ ">").toList = _
  rw [String.toList_append, String.toList_append, intercalate_toList]
  rfl

mutual

/-- A written reference is cut into its own tokens, in front of any text that
does not continue its last name. -/
theorem lexemes_spell : (t : TypeRef) → t.isWellFormed = true → ∀ {cs : List Char},
    EndsName cs → lexemes ((t.spell "!").toList ++ cs) = t.marks ++ lexemes cs
  | named name [], h, cs, hcs => by
      simp only [isWellFormed, areWellFormed, Bool.and_true] at h
      have hs : (TypeRef.spell "!" (.named name [])) = name := by
        simp [spell, spellAll, angled]
      rw [hs, lexemes_isName h hcs]
      rfl
  | named name (t :: ts), h, cs, hcs => by
      simp only [isWellFormed, areWellFormed, Bool.and_eq_true] at h
      obtain ⟨hname, ht, hts⟩ := h
      have hends : ∀ (us : List TypeRef) (ds : List Char),
          EndsName (us.flatMap (fun u => ',' :: ' ' :: (u.spell "!").toList) ++ '>' :: ds) := by
        intro us ds
        cases us <;> exact endsName_cons rfl
      have hspell : (TypeRef.spell "!" (.named name (t :: ts))).toList
          = name.toList ++ '<' :: ((t.spell "!").toList
            ++ ts.flatMap (fun u => ',' :: ' ' :: (u.spell "!").toList) ++ ['>']) := by
        rw [spell, String.toList_append, spellAll, angled_toList, spellAll_eq_map,
          List.flatMap_map]
        rfl
      rw [hspell]
      simp only [List.append_assoc, List.cons_append, List.nil_append]
      rw [lexemes_isName hname (endsName_cons rfl), lexemes_delimiter _ rfl,
        lexemes_spell t ht (hends ts cs), lexemes_further ts hts cs]
      simp [marks, argumentMarks]
  | param name, h, cs, hcs => by
      rw [spell, String.toList_append, List.append_assoc]
      show lexemes ('!' :: (name.toList ++ cs)) = _
      rw [lexemes_delimiter _ rfl, lexemes_isName h hcs]
      rfl
  | array element rank, h, cs, hcs => by
      simp only [isWellFormed, Bool.and_eq_true] at h
      rw [spell]
      simp only [String.toList_append, List.append_assoc, String.toList_ofList]
      show lexemes ((element.spell "!").toList
        ++ '[' :: (List.replicate (rank - 1) ',' ++ ']' :: cs)) = _
      rw [lexemes_spell element h.1 (endsName_cons rfl), lexemes_delimiter _ rfl,
        lexemes_replicate rfl, lexemes_delimiter _ rfl]
      simp [marks]
  | byRef target, h, cs, hcs => by
      rw [spell, String.toList_append, List.append_assoc]
      show lexemes ((target.spell "!").toList ++ '&' :: cs) = _
      rw [lexemes_spell target h (endsName_cons rfl), lexemes_delimiter _ rfl]
      simp [marks]
  | pointer target, h, cs, hcs => by
      rw [spell, String.toList_append, List.append_assoc]
      show lexemes ((target.spell "!").toList ++ '*' :: cs) = _
      rw [lexemes_spell target h (endsName_cons rfl), lexemes_delimiter _ rfl]
      simp [marks]

/-- Further arguments are cut into their own tokens, in front of the closing
bracket of their list. -/
theorem lexemes_further : (ts : List TypeRef) → areWellFormed ts = true →
    ∀ (cs : List Char),
    lexemes (ts.flatMap (fun u => ',' :: ' ' :: (u.spell "!").toList) ++ '>' :: cs)
      = furtherMarks ts ++ .greater :: lexemes cs
  | [], _, cs => lexemes_delimiter cs rfl
  | t :: ts, h, cs => by
      simp only [areWellFormed, Bool.and_eq_true] at h
      have hends : EndsName
          (ts.flatMap (fun u => ',' :: ' ' :: (u.spell "!").toList) ++ '>' :: cs) := by
        cases ts <;> exact endsName_cons rfl
      rw [List.flatMap_cons, List.append_assoc, List.cons_append, List.cons_append,
        lexemes_delimiter _ rfl, lexemes_blank _ rfl, lexemes_spell t h.1 hends,
        lexemes_further ts h.2 cs]
      simp [furtherMarks]

end

/-- The display form of a well-formed reference consists of its tokens. -/
theorem lexemes_display {t : TypeRef} (h : t.isWellFormed = true) :
    lexemes t.display.toList = t.marks := by
  have hlex := lexemes_spell t h endsName_nil
  rwa [List.append_nil, lexemes_nil, List.append_nil] at hlex

/-! ## The blanks of a display form -/

/-- The only blanks among the characters are spaces. -/
def SpacesOnly (cs : List Char) : Prop := ∀ c ∈ cs, Text.isBlank c = true → c = ' '

theorem SpacesOnly.append {xs ys : List Char} (hx : SpacesOnly xs) (hy : SpacesOnly ys) :
    SpacesOnly (xs ++ ys) := fun c hc =>
  (List.mem_append.mp hc).elim (hx c) (hy c)

theorem spacesOnly_single {c : Char} (h : Text.isBlank c = false) : SpacesOnly [c] := by
  intro d hd hb
  rw [List.mem_singleton.mp hd, h] at hb
  exact absurd hb nofun

theorem spacesOnly_space : SpacesOnly [' '] := fun _ hc _ => List.mem_singleton.mp hc

theorem SpacesOnly.separated {parts : List String}
    (h : ∀ p ∈ parts, SpacesOnly p.toList) :
    SpacesOnly (parts.flatMap fun p => ',' :: ' ' :: p.toList) := by
  intro c hc
  obtain ⟨p, hp, hcp⟩ := List.mem_flatMap.mp hc
  have hsep : SpacesOnly ([','] ++ [' ']) := (spacesOnly_single rfl).append spacesOnly_space
  exact hsep.append (h p hp) c hcp

theorem spacesOnly_isName {s : String} (h : isName s = true) : SpacesOnly s.toList := by
  intro c hc hb
  have hc' := (isName_toList h).2 c hc
  simp [isNameChar, hb] at hc'

theorem spacesOnly_commas (n : Nat) : SpacesOnly (List.replicate n ',') := by
  intro c hc hb
  obtain rfl := List.eq_of_mem_replicate hc
  exact absurd hb (by decide)

mutual

/-- The only blanks of a written reference are the spaces behind its commas. -/
theorem spacesOnly_spell : (t : TypeRef) → t.isWellFormed = true →
    SpacesOnly (t.spell "!").toList
  | named name [], h => by
      simp only [isWellFormed, areWellFormed, Bool.and_true] at h
      simpa [spell, spellAll, angled] using spacesOnly_isName h
  | named name (t :: ts), h => by
      simp only [isWellFormed, areWellFormed, Bool.and_eq_true] at h
      obtain ⟨hname, ht, hts⟩ := h
      rw [spell, String.toList_append, spellAll, angled_toList]
      have hopen : SpacesOnly ['<'] := spacesOnly_single rfl
      have hclose : SpacesOnly ['>'] := spacesOnly_single rfl
      exact (spacesOnly_isName hname).append (((hopen.append (spacesOnly_spell t ht)).append
        (SpacesOnly.separated (spacesOnly_spellAll ts hts))).append hclose)
  | param name, h => by
      rw [spell, String.toList_append]
      have hmark : SpacesOnly "!".toList := spacesOnly_single rfl
      exact hmark.append (spacesOnly_isName h)
  | array element rank, h => by
      simp only [isWellFormed, Bool.and_eq_true] at h
      simp only [spell, String.toList_append, String.toList_ofList]
      have hopen : SpacesOnly "[".toList := spacesOnly_single rfl
      have hclose : SpacesOnly "]".toList := spacesOnly_single rfl
      exact (((spacesOnly_spell element h.1).append hopen).append
        (spacesOnly_commas _)).append hclose
  | byRef target, h => by
      rw [spell, String.toList_append]
      have hmark : SpacesOnly "&".toList := spacesOnly_single rfl
      exact (spacesOnly_spell target h).append hmark
  | pointer target, h => by
      rw [spell, String.toList_append]
      have hmark : SpacesOnly "*".toList := spacesOnly_single rfl
      exact (spacesOnly_spell target h).append hmark

theorem spacesOnly_spellAll : (ts : List TypeRef) → areWellFormed ts = true →
    ∀ p ∈ spellAll "!" ts, SpacesOnly p.toList
  | [], _, _, hp => (List.not_mem_nil hp).elim
  | t :: ts, h, p, hp => by
      simp only [areWellFormed, Bool.and_eq_true] at h
      rcases List.mem_cons.mp hp with rfl | hp'
      · exact spacesOnly_spell t h.1
      · exact spacesOnly_spellAll ts h.2 p hp'

end

end ApiBaseline.TypeRef
