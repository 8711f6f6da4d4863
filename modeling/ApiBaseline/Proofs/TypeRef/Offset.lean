import ApiBaseline.Proofs.List
import ApiBaseline.Proofs.TypeRef.Lexeme

/-!
# Where tokens stand

The scanner pairs each token with the byte offset at which it begins. In front
of that offset stands a text of its own: it takes as many bytes as the offset
says, its lexemes are the tokens in front, and no name runs from it into the
token (`scan_eq_append`). So the text up to a token can be followed by anything
else, and its lexemes stay (`lexemes_append`).

Up to its first blank of several bytes a text is scanned as if it ended there;
behind that blank nothing is scanned (`scan_wide`).
-/

namespace ApiBaseline

namespace TypeRef

open Text (byteLength)

/-! ## Texts side by side -/

/-- No name runs from the first text on into the second one. -/
def Parted (front back : List Char) : Prop :=
  ∀ a ∈ front.getLast?, ∀ c ∈ back.head?, isNameChar a = false ∨ isNameChar c = false

theorem parted_nil (back : List Char) : Parted [] back := nofun

theorem Parted.of_endsName {front back : List Char} (h : EndsName back) : Parted front back :=
  fun _ _ c hc => Or.inr (h c hc)

/-- The rest of the first text is all that matters. -/
theorem parted_append_iff {front back : List Char} (before : List Char) (hne : front ≠ []) :
    Parted (before ++ front) back ↔ Parted front back := by
  rw [Parted, Parted, List.getLast?_append_of_ne_nil before hne]

/-- Texts that no name joins are cut into tokens one after the other. -/
theorem lexemes_append {front back : List Char} (h : Parted front back) :
    lexemes (front ++ back) = lexemes front ++ lexemes back := by
  induction front using cut.induct isNameChar with
  | case1 => rw [List.nil_append, lexemes_nil, List.nil_append]
  | case2 c cs hc ih =>
      -- The run ends inside the first text, or with it and in front of the second one.
      have hrun : ∀ d ∈ c :: cs.takeWhile isNameChar, isNameChar d = true := by
        intro d hd
        rcases List.mem_cons.mp hd with rfl | hd
        · exact hc
        · exact List.all_eq_true.mp List.all_takeWhile d hd
      have hsplit : c :: cs = (c :: cs.takeWhile isNameChar) ++ cs.dropWhile isNameChar := by
        rw [List.cons_append, List.takeWhile_append_dropWhile]
      have hinner : EndsName (cs.dropWhile isNameChar) := by
        intro d hd
        have hnot := List.head?_dropWhile_not isNameChar cs
        rw [Option.mem_def.mp hd] at hnot
        simpa using hnot
      have hlex : lexemes (c :: cs)
          = .name (String.ofList (c :: cs.takeWhile isNameChar))
            :: lexemes (cs.dropWhile isNameChar) := lexemes_run c cs hc
      rw [hlex]
      rw [hsplit] at h ⊢
      cases hdrop : cs.dropWhile isNameChar with
      | nil =>
          rw [hdrop, List.append_nil] at h
          have hback : EndsName back := by
            intro d hd
            obtain ⟨a, ha⟩ : ∃ a, (c :: cs.takeWhile isNameChar).getLast? = some a := ⟨_, rfl⟩
            refine (h a ha d hd).resolve_left ?_
            rw [hrun a (List.mem_of_getLast? ha)]
            exact nofun
          rw [List.append_nil, lexemes_name (List.cons_ne_nil _ _) hrun hback, lexemes_nil]
          rfl
      | cons d ds =>
          rw [hdrop] at h hinner ih
          have hrest := ih ((parted_append_iff _ (List.cons_ne_nil _ _)).mp h)
          have hends : EndsName (d :: ds ++ back) := hinner
          rw [List.append_assoc, lexemes_name (List.cons_ne_nil _ _) hrun hends, hrest]
          rfl
  | case3 c cs hc ih =>
      have hc' : isNameChar c = false := by simpa using hc
      have hrest : Parted cs back := by
        cases cs with
        | nil => exact parted_nil back
        | cons d ds => exact (parted_append_iff [c] (List.cons_ne_nil d ds)).mp h
      rw [List.cons_append, lexemes_single c _ hc', lexemes_single c _ hc', ih hrest,
        List.append_assoc]

/-! ## The beginning of a token -/

/-- The token is one that begins with the character: the delimiter that the
character is, or a name. -/
def Token.BeginsWith (c : Char) (t : Token) : Prop :=
  Token.delimiter? c = some t ∨ isNameChar c = true ∧ ∃ text, t = .name text

theorem Token.BeginsWith.exists_lexeme {c : Char} {t : Token} (h : t.BeginsWith c)
    (more : List Char) : ∃ u rest, lexemes (c :: more) = u :: rest ∧ u.BeginsWith c := by
  rcases h with hdelimiter | ⟨hname, -⟩
  · exact ⟨t, _, lexemes_delimiter more hdelimiter, Or.inl hdelimiter⟩
  · exact ⟨_, _, lexemes_run c more hname, Or.inr ⟨hname, _, rfl⟩⟩

/-! ## Offsets of the scanner -/

/-- The begun name stands at `base` and reaches up to `offset`; without one
these are the same place. -/
structure Pending.Spans (base offset : Nat) (p : Pending) : Prop where
  wellFormed : p.WellFormed
  start : ∀ q ∈ p, q.1 = base
  length : offset = base + byteLength p.run

theorem Pending.spans_none (offset : Nat) : Pending.Spans offset offset none :=
  ⟨trivial, nofun, rfl⟩

theorem Pending.Spans.push {base offset : Nat} {p : Pending} (h : p.Spans base offset) {c : Char}
    (hc : isNameChar c = true) : (p.push offset c).Spans base (offset + c.utf8Size) where
  wellFormed := h.wellFormed.push offset hc
  start := by
    cases p with
    | none =>
        intro q hq
        obtain rfl := Option.some.inj hq
        exact h.length
    | some q =>
        intro q' hq'
        obtain rfl := Option.some.inj hq'
        exact h.start q rfl
  length := by
    rw [Pending.run_push, Text.byteLength_append, ← Nat.add_assoc, ← h.length]
    rfl

/-- The token stands in the text at its offset: in front of it stands a text of
so many bytes, whose lexemes are the tokens `before`. -/
def StandsIn (text : List Char) (base : Nat) (before : List Token) (place : Nat × Token) :
    Prop :=
  ∃ front c rest, text = front ++ c :: rest ∧ place.1 = base + byteLength front
    ∧ before = lexemes front ∧ Parted front [c] ∧ place.2.BeginsWith c

namespace Pending.Spans

variable {base offset : Nat} {p : Pending} (h : p.Spans base offset)

include h

theorem lexemes_run : p.flush.map (·.2) = lexemes p.run := by
  have hlex := Pending.lexemes_run h.wellFormed endsName_nil
  rw [List.append_nil, lexemes_nil, List.append_nil] at hlex
  exact hlex.symm

theorem standsIn_flush {before after : List (Nat × Token)} {place : Nat × Token}
    (hflush : p.flush = before ++ place :: after) (cs : List Char) :
    StandsIn (p.run ++ cs) base (before.map (·.2)) place := by
  cases p with
  | none => exact absurd hflush.symm (List.append_ne_nil_of_right_ne_nil _ (List.cons_ne_nil _ _))
  | some q =>
      obtain ⟨hne, hname⟩ := h.wellFormed
      obtain ⟨c, rest, hrun⟩ := List.exists_cons_of_ne_nil (List.reverse_ne_nil_iff.mpr hne)
      rcases List.singleton_eq_append_iff.mp hflush with ⟨rfl, hentry⟩ | ⟨-, hentry⟩
      · obtain ⟨rfl, -⟩ := List.cons.inj hentry
        have hc : c ∈ q.2 := List.mem_reverse.mp (hrun ▸ List.mem_cons_self)
        exact ⟨[], c, rest ++ cs, congrArg (· ++ cs) hrun, h.start q rfl, lexemes_nil.symm,
          parted_nil [c], Or.inr ⟨hname c hc, _, rfl⟩⟩
      · exact absurd hentry (List.cons_ne_nil _ _)

/-- A delimiter behind a begun name stands where the name ends. -/
theorem standsIn_delimiter {d : Char} {t : Token} (hd : Token.delimiter? d = some t)
    (cs : List Char) : StandsIn (p.run ++ d :: cs) base (p.flush.map (·.2)) (offset, t) :=
  ⟨p.run, d, cs, rfl, h.length, h.lexemes_run,
    .of_endsName (endsName_cons (isNameChar_eq_false_iff.mpr (Or.inr ⟨t, hd⟩))), Or.inl hd⟩

/-- What stands behind a character that ends the begun name has this name and
that character in front of it. -/
theorem standsIn_beyond {d : Char} (hd : isNameChar d = false) {cs : List Char}
    {before : List Token} {place : Nat × Token}
    (hplace : StandsIn cs (offset + d.utf8Size) before place) :
    StandsIn (p.run ++ d :: cs) base
      (p.flush.map (·.2) ++ ((Token.delimiter? d).toList ++ before)) place := by
  obtain ⟨front, c, rest, rfl, ho, rfl, hparted, ht⟩ := hplace
  refine ⟨p.run ++ d :: front, c, rest, by simp, ?_, ?_, ?_, ht⟩
  · rw [ho, Text.byteLength_append, byteLength, h.length]
    omega
  · rw [Pending.lexemes_run h.wellFormed (endsName_cons hd), lexemes_single d front hd]
  · rw [parted_append_iff _ (List.cons_ne_nil d front)]
    cases front with
    | nil =>
        intro a ha c' _
        obtain rfl := Option.some.inj ha
        exact Or.inl hd
    | cons e front => exact (parted_append_iff [d] (List.cons_ne_nil e front)).mpr hparted

end Pending.Spans

/-- **Each token stands at its offset.** -/
theorem scan_eq_append (cs : List Char) {base offset : Nat} {p : Pending}
    (hp : p.Spans base offset) {before after : List (Nat × Token)} {place : Nat × Token}
    (h : (scan offset p cs).1 = before ++ place :: after) :
    StandsIn (p.run ++ cs) base (before.map (·.2)) place := by
  -- By the text, with the begun name in front of it; its place is what `Spans` keeps.
  induction cs generalizing base offset p before with
  | nil => exact hp.standsIn_flush h []
  | cons d cs ih =>
      rw [scan] at h
      by_cases hb : Text.isBlank d = true
      · rw [if_pos hb] at h
        by_cases hs : d.utf8Size = 1
        · rw [if_pos hs, ← hs] at h
          rcases append_eq_append_cons h with ⟨after', hflush⟩ | ⟨before', rfl, hrest⟩
          · exact hp.standsIn_flush hflush _
          · have hname := isNameChar_eq_false_iff.mpr (Or.inl hb)
            have hplace := hp.standsIn_beyond hname (ih (Pending.spans_none _) hrest)
            rwa [delimiter_of_isBlank hb, Option.toList_none, List.nil_append,
              ← List.map_append] at hplace
        · rw [if_neg hs] at h
          exact hp.standsIn_flush h _
      · rw [if_neg hb] at h
        cases hd : Token.delimiter? d with
        | some u =>
            simp only [hd] at h
            rcases append_eq_append_cons h with ⟨after', hflush⟩ | ⟨before', rfl, hrest⟩
            · exact hp.standsIn_flush hflush _
            · have hname := isNameChar_eq_false_iff.mpr (Or.inr ⟨u, hd⟩)
              cases before' with
              | nil =>
                  obtain ⟨rfl, -⟩ := List.cons.inj hrest
                  rw [List.append_nil]
                  exact hp.standsIn_delimiter hd cs
              | cons first before' =>
                  obtain ⟨rfl, htail⟩ := List.cons.inj hrest
                  have hplace := hp.standsIn_beyond hname (ih (Pending.spans_none _) htail)
                  rw [hd] at hplace
                  rwa [List.map_append]
        | none =>
            -- The begun name takes the character along.
            simp only [hd] at h
            have hname : isNameChar d = true := by simp [isNameChar, hb, hd]
            have hplace := ih (hp.push hname) h
            rwa [Pending.run_push, List.append_assoc] at hplace

/-! ## Blanks of several bytes -/

/-- Every blank takes one byte. -/
def NarrowBlanks (cs : List Char) : Prop := ∀ c ∈ cs, Text.isBlank c = true → c.utf8Size = 1

theorem NarrowBlanks.append {xs ys : List Char} (hx : NarrowBlanks xs) (hy : NarrowBlanks ys) :
    NarrowBlanks (xs ++ ys) := fun c hc =>
  (List.mem_append.mp hc).elim (hx c) (hy c)

/-- A text has narrow blanks only, or a first blank of several bytes. -/
theorem narrowBlanks_or_wide (cs : List Char) :
    NarrowBlanks cs ∨ ∃ front c rest, cs = front ++ c :: rest ∧ NarrowBlanks front
      ∧ Text.isBlank c = true ∧ c.utf8Size ≠ 1 := by
  induction cs with
  | nil => exact Or.inl nofun
  | cons d cs ih =>
      by_cases hd : Text.isBlank d = true ∧ d.utf8Size ≠ 1
      · exact Or.inr ⟨[], d, cs, rfl, nofun, hd⟩
      · have hd' : Text.isBlank d = true → d.utf8Size = 1 := fun hb =>
          Decidable.not_not.mp fun hs => hd ⟨hb, hs⟩
        rcases ih with hcs | ⟨front, c, rest, rfl, hfront, hc⟩
        · exact Or.inl (List.forall_mem_cons.mpr ⟨hd', hcs⟩)
        · exact Or.inr ⟨d :: front, c, rest, rfl, List.forall_mem_cons.mpr ⟨hd', hfront⟩, hc⟩

/-- With narrow blanks only the scanner counts up to the end of the text. -/
theorem scan_narrow {cs : List Char} (h : NarrowBlanks cs) {offset : Nat} {p : Pending} :
    (scan offset p cs).2 = .finish (offset + byteLength cs) := by
  induction cs generalizing offset p with
  | nil => rfl
  | cons d cs ih =>
      obtain ⟨hd, hcs⟩ := List.forall_mem_cons.mp h
      rw [scan, byteLength, ← Nat.add_assoc]
      by_cases hb : Text.isBlank d = true
      · rw [if_pos hb, if_pos (hd hb), hd hb]
        exact ih hcs
      · rw [if_neg hb]
        cases Token.delimiter? d with
        | some t => exact ih hcs
        | none => exact ih hcs

/-- A blank of several bytes stops the scanner, with the tokens in front of it. -/
theorem scan_wide {cs : List Char} (h : NarrowBlanks cs) {c : Char}
    (hc : Text.isBlank c = true) (hsize : c.utf8Size ≠ 1) (rest : List Char) {offset : Nat}
    {p : Pending} :
    scan offset p (cs ++ c :: rest)
      = ((scan offset p cs).1, .split (offset + byteLength cs)) := by
  induction cs generalizing offset p with
  | nil =>
      rw [List.nil_append, scan.eq_2, if_pos hc, if_neg hsize]
      rfl
  | cons d cs ih =>
      obtain ⟨hd, hcs⟩ := List.forall_mem_cons.mp h
      rw [List.cons_append, scan, scan, byteLength, ← Nat.add_assoc]
      by_cases hb : Text.isBlank d = true
      · simp only [if_pos hb, hd hb, ih hcs, if_true]
      · simp only [if_neg hb]
        cases Token.delimiter? d with
        | some t => simp only [ih hcs]
        | none => exact ih hcs

end TypeRef

end ApiBaseline
