import ApiBaseline.Proofs.Classify.ByReference
import ApiBaseline.Proofs.Record.Word

/-!
# Literals in an identifier

The default of a parameter ends where its literal does. A number or a boolean has none of the
characters that stand behind a default (`rawText_plain`), and a quoted text ends with its
quote. But quotes are put around a text without a look at it. So a literal has an end that can
be told from the text behind it (`IsLiteral.unique`) if no text that is written has the
characters in it that end it (`Parameter.HasClosedDefault`).
-/

namespace ApiBaseline

/-! ## Numbers -/

namespace Decimal

theorem isDigit_of_mem_trimZeros {cs : List Char} (h : ∀ c ∈ cs, c.isDigit = true) :
    ∀ c ∈ trimZeros cs, c.isDigit = true := by
  unfold trimZeros
  split
  · decide
  · intro c hc
    have hmem : c ∈ cs.reverse.dropWhile (· == '0') := List.mem_reverse.mp hc
    exact h c (List.mem_reverse.mp ((List.dropWhile_sublist _).subset hmem))

theorem isDigit_of_mem_toDigits {n : Nat} : ∀ c ∈ Nat.toDigits 10 n, c.isDigit = true :=
  fun _ hc => Nat.isDigit_of_mem_toDigits (by decide) (by decide) hc

/-- A digit, a sign, a point or the mark of an exponent. -/
def Layout.IsNumeric (layout : Layout) (c : Char) : Prop :=
  c.isDigit = true ∨ c ∈ ['.', '+', '-', layout.mark]

namespace Layout

variable (layout : Layout)

theorem isNumeric_trimZeros (n : Nat) :
    ∀ c ∈ trimZeros (Nat.toDigits 10 n), layout.IsNumeric c := fun c hc =>
  Or.inl (isDigit_of_mem_trimZeros isDigit_of_mem_toDigits c hc)

theorem isNumeric_zeros (n : Nat) : ∀ c ∈ List.replicate n '0', layout.IsNumeric c :=
  fun c hc => Or.inl (by rw [List.eq_of_mem_replicate hc]; rfl)

theorem isNumeric_positional (d : Digits) : ∀ c ∈ d.positional, layout.IsNumeric c := by
  have hdigits := layout.isNumeric_trimZeros d.value
  have hzeros := layout.isNumeric_zeros
  have hzero : layout.IsNumeric '0' := Or.inl rfl
  have hpoint : layout.IsNumeric '.' := Or.inr List.mem_cons_self
  unfold Digits.positional
  dsimp only
  split
  · exact List.forall_mem_cons.mpr ⟨hzero, List.forall_mem_cons.mpr ⟨hpoint, hdigits⟩⟩
  · split
    · exact List.forall_mem_append.mpr ⟨hdigits, hzeros _⟩
    · rw [List.forall_mem_append, List.forall_mem_cons]
      exact ⟨fun c hc => hdigits c (List.mem_of_mem_take hc), hpoint,
        fun c hc => hdigits c (List.mem_of_mem_drop hc)⟩
  · rw [List.forall_mem_append, List.forall_mem_cons, List.forall_mem_cons]
    exact ⟨⟨hzero, hpoint, hzeros _⟩, hdigits⟩

theorem isNumeric_scientific (d : Digits) : ∀ c ∈ d.scientific layout, layout.IsNumeric c := by
  have hdigits := layout.isNumeric_trimZeros d.value
  have hmark : layout.IsNumeric layout.mark := Or.inr (by simp)
  have hsign : ∀ b : Prop, [Decidable b] → layout.IsNumeric (if b then '-' else '+') := by
    intro b _
    split <;> exact Or.inr (by simp)
  have hpoint : layout.IsNumeric '.' := Or.inr List.mem_cons_self
  unfold Digits.scientific
  dsimp only
  simp only [List.forall_mem_append, List.forall_mem_cons]
  refine ⟨⟨⟨fun c hc => hdigits c (List.mem_of_mem_take hc), ?_⟩, hmark, hsign _,
    layout.isNumeric_zeros _⟩, fun c hc => Or.inl (isDigit_of_mem_toDigits c hc)⟩
  split
  · exact List.forall_mem_nil _
  · exact List.forall_mem_cons.mpr ⟨hpoint, fun c hc => hdigits c (List.mem_of_mem_drop hc)⟩

theorem isNumeric_magnitude (x : Binary64) : ∀ c ∈ layout.magnitude x, layout.IsNumeric c := by
  unfold magnitude
  dsimp only
  split
  · exact layout.isNumeric_zeros 1
  · split
    · exact layout.isNumeric_positional _
    · exact layout.isNumeric_scientific _

theorem mem_write {x : Binary64} {c : Char} (hc : c ∈ (layout.write x).toList) :
    c ∈ layout.nan.toList ∨ c ∈ layout.infinity.toList ∨ layout.IsNumeric c := by
  rw [write] at hc
  split at hc
  · exact Or.inl hc
  · have hbody : ∀ d ∈ (if x.isInfinite then layout.infinity.toList else layout.magnitude x),
        d ∈ layout.infinity.toList ∨ layout.IsNumeric d := by
      split
      · exact fun d hd => Or.inl hd
      · exact fun d hd => Or.inr (layout.isNumeric_magnitude x d hd)
    rw [String.toList_ofList] at hc
    split at hc
    · rcases List.mem_cons.mp hc with rfl | hc
      · exact Or.inr (Or.inr (Or.inr (by simp)))
      · exact Or.inr (hbody c hc)
    · exact Or.inr (hbody c hc)

end Layout

end Decimal

/-- The characters that can end a literal or begin what stands behind it. -/
def literalEnds : List Char := ['"', '\'', ',', '(', ')']

/-- Only a text can have quotes, commas or parentheses in it. -/
theorem Constant.rawText_plain {c : Constant} (h : c.kind ≠ .text) :
    ∀ d ∈ c.rawText.toList, d ∉ literalEnds := by
  have hdigit : ∀ d : Char, d.isDigit = true → d ∉ literalEnds := by
    intro d hd hmem
    have hnone : ∀ e ∈ literalEnds, e.isDigit = false := by decide
    exact Bool.false_ne_true ((hnone d hmem).symm.trans hd)
  have hrepr : ∀ n : Nat, ∀ d ∈ n.repr.toList, d.isDigit = true := by
    intro n d hd
    rw [Nat.repr, String.toList_ofList] at hd
    exact Decimal.isDigit_of_mem_toDigits d hd
  have hinteger : ∀ n : Int, ∀ d ∈ (toString n).toList, d ∉ literalEnds := by
    intro n d hd
    rw [Int.toString_eq_repr, Int.repr_eq_if] at hd
    split at hd
    · exact hdigit d (hrepr _ d hd)
    · rw [String.toList_append] at hd
      rcases List.mem_append.mp hd with hd | hd
      · exact (by decide : ∀ e ∈ "-".toList, e ∉ literalEnds) d hd
      · exact hdigit d (hrepr _ d hd)
  cases c with
  | boolean b => cases b <;> decide
  | signed n => exact hinteger n.value
  | unsigned n => exact hinteger n.value
  | real x =>
      intro d hd
      rcases layout.mem_write hd with hd | hd | hd | hd
      · exact (by decide : ∀ e ∈ layout.nan.toList, e ∉ literalEnds) d hd
      · exact (by decide : ∀ e ∈ layout.infinity.toList, e ∉ literalEnds) d hd
      · exact hdigit d hd
      · exact (by decide : ∀ e ∈ ['.', '+', '-', layout.mark], e ∉ literalEnds) d hd
  | text s => exact absurd rfl h

/-! ## Literals -/

/-- The quote around the literals of a type, if they are quoted. -/
def quote? (typeName : String) : Option Char :=
  if typeName = "System.String" then some '"'
  else if typeName = "System.Char" then some '\''
  else none

/-- A text that can be told from what stands behind it, if it is the literal of a type. -/
inductive IsLiteral (typeName : String) : List Char → Prop
  | bare (cs : List Char) (hplain : ∀ c ∈ cs, c ∉ [',', '(', ')'])
      (hquote : ∀ q ∈ quote? typeName, cs.head? ≠ some q) : IsLiteral typeName cs
  | default : IsLiteral typeName ("default(" ++ typeName ++ ")").toList
  | quoted (q : Char) (hq : quote? typeName = some q) (cs : List Char) (hinner : q ∉ cs) :
      IsLiteral typeName (q :: (cs ++ [q]))

/-- What stands behind a literal begins with a comma or a parenthesis. -/
def EndsLiteral (cs : List Char) : Prop := ∃ c rest, cs = c :: rest ∧ c ∈ [',', ')']

theorem mem_of_quote? {typeName : String} {q : Char} (hq : quote? typeName = some q) :
    q ∈ ['"', '\''] := by
  unfold quote? at hq
  split at hq
  · obtain rfl := Option.some.inj hq
    decide
  · split at hq
    · obtain rfl := Option.some.inj hq
      decide
    · cases hq

theorem ne_of_quote? {typeName : String} {q c : Char} (hq : quote? typeName = some q)
    (hc : c ∈ [',', ')', 'd', 'n']) : c ≠ q := by
  rintro rfl
  have hdisjoint : ∀ d ∈ [',', ')', 'd', 'n'], d ∉ ['"', '\''] := by decide
  exact hdisjoint c hc (mem_of_quote? hq)

theorem default_toList (typeName : String) : ("default(" ++ typeName ++ ")").toList
    = "default".toList ++ '(' :: (typeName.toList ++ [')']) := by
  rw [String.toList_append, String.toList_append]
  simp

namespace IsLiteral

variable {typeName : String} {cs ds xs ys : List Char}

/-- The parenthesis of a null default comes too early for a bare literal. -/
theorem bare_ne_default (hcs : ∀ c ∈ cs, c ∉ [',', '(', ')']) (hxs : EndsLiteral xs) :
    cs ++ xs ≠ ("default(" ++ typeName ++ ")").toList ++ ys := by
  obtain ⟨c, rest, rfl, hc⟩ := hxs
  rw [default_toList, List.append_assoc, List.cons_append]
  intro h
  have hword : ∀ d ∈ "default".toList, d ∉ [',', '(', ')'] := by decide
  have hends : ∀ d ∈ [',', ')'], d ∈ [',', '(', ')'] ∧ d ≠ '(' := by decide
  obtain ⟨-, rfl, -⟩ := eq_of_append_cons (p := (· ∈ [',', '(', ')'])) hcs hword (hends c hc).1
    (by decide) h
  exact (hends _ hc).2 rfl

theorem bare_ne_quoted {q : Char} (hq : quote? typeName = some q) (hcs : cs.head? ≠ some q)
    (hxs : EndsLiteral xs) : cs ++ xs ≠ q :: ds := by
  obtain ⟨c, rest, rfl, hc⟩ := hxs
  intro h
  cases cs with
  | nil =>
      have hends : ∀ d ∈ [',', ')'], d ∈ [',', ')', 'd', 'n'] := by decide
      exact ne_of_quote? hq (hends c hc) (List.cons.inj h).1
  | cons d cs => exact hcs (congrArg some (List.cons.inj h).1)

theorem default_ne_quoted {q : Char} (hq : quote? typeName = some q) :
    ("default(" ++ typeName ++ ")").toList ++ xs ≠ q :: ds := by
  rw [default_toList]
  intro h
  exact ne_of_quote? hq (by decide) (List.cons.inj h).1

/-- **The literal in front of a text.** -/
theorem unique (hcs : IsLiteral typeName cs) (hds : IsLiteral typeName ds)
    (hxs : EndsLiteral xs) (hys : EndsLiteral ys) (h : cs ++ xs = ds ++ ys) :
    cs = ds ∧ xs = ys := by
  cases hcs with
  | bare cs hplain hquote =>
      cases hds with
      | bare ds hplain' hquote' =>
          obtain ⟨c, xs, rfl, hc⟩ := hxs
          obtain ⟨d, ys, rfl, hd⟩ := hys
          have hends : ∀ d ∈ [',', ')'], d ∈ [',', '(', ')'] := by decide
          obtain ⟨rfl, rfl, rfl⟩ := eq_of_append_cons (p := (· ∈ [',', '(', ')'])) hplain hplain'
            (hends c hc) (hends d hd) h
          exact ⟨rfl, rfl⟩
      | default => exact absurd h (bare_ne_default hplain hxs)
      | quoted q hq ds hinner => exact absurd h (bare_ne_quoted hq (hquote q hq) hxs)
  | default =>
      cases hds with
      | bare ds hplain' hquote' => exact absurd h.symm (bare_ne_default hplain' hys)
      | default => exact ⟨rfl, List.append_cancel_left h⟩
      | quoted q hq ds hinner => exact absurd h (default_ne_quoted hq)
  | quoted q hq cs hinner =>
      cases hds with
      | bare ds hplain' hquote' => exact absurd h.symm (bare_ne_quoted hq (hquote' q hq) hys)
      | default => exact absurd h.symm (default_ne_quoted hq)
      | quoted q' hq' ds hinner' =>
          obtain rfl := Option.some.inj (hq.symm.trans hq')
          simp only [List.cons_append, List.append_assoc, List.nil_append, List.cons.injEq,
            true_and] at h
          obtain ⟨rfl, -, rfl⟩ := eq_of_append_cons (p := (· = q))
            (fun c hc hcq => hinner (hcq ▸ hc)) (fun c hc hcq => hinner' (hcq ▸ hc)) rfl rfl h
          exact ⟨rfl, rfl⟩

end IsLiteral

/-! ## Defaults -/

/-- The characters that a text must not have in it to have an end as a literal of a type. -/
def closers (typeName : String) : List Char :=
  match quote? typeName with
  | some q => [q]
  | none => [',', '(', ')']

theorem closers_subset (typeName : String) : closers typeName ⊆ literalEnds := by
  unfold closers
  split
  · next q hq =>
    have hquotes : ['"', '\''] ⊆ literalEnds := by decide
    exact List.cons_subset.mpr ⟨hquotes (mem_of_quote? hq), List.nil_subset _⟩
  · decide

/-- If the default is a text, its literal ends where the text does. -/
def Parameter.HasClosedDefault (p : Parameter) : Prop :=
  ∀ s, p.hasDefault = true → p.default = some (.text s) →
    ∀ c ∈ s.toList, c ∉ closers p.type.canonicalName

namespace Constant

variable {c : Constant} {typeName : String}

theorem rawText_closed (hclosed : ∀ s, c = .text s → ∀ d ∈ s.toList, d ∉ closers typeName) :
    ∀ d ∈ c.rawText.toList, d ∉ closers typeName := by
  by_cases htext : c.kind = .text
  · cases c with
    | text s => exact hclosed s rfl
    | boolean b => cases htext
    | signed n => cases htext
    | unsigned n => cases htext
    | real x => cases htext
  · exact fun d hd hmem => rawText_plain htext d hd (closers_subset typeName hmem)

theorem literal?_of_quote? {q : Char} (hq : quote? typeName = some q) :
    c.literal? typeName = some (String.ofList (q :: (c.rawText.toList ++ [q]))) := by
  unfold quote? at hq
  rw [literal?]
  split at hq
  · next hstring =>
    obtain rfl := Option.some.inj hq
    rw [if_pos hstring]
    exact congrArg some (String.toList_inj.mp (by simp))
  · next hstring =>
    rw [if_neg hstring]
    split at hq
    · next hchar =>
      obtain rfl := Option.some.inj hq
      rw [if_pos hchar]
      exact congrArg some (String.toList_inj.mp (by simp))
    · cases hq

theorem literal?_of_bare (hq : quote? typeName = none) {literal : String}
    (h : c.literal? typeName = some literal) : literal = c.rawText := by
  unfold quote? at hq
  rw [literal?] at h
  split at hq
  · cases hq
  · next hstring =>
    rw [if_neg hstring] at h
    split at hq
    · cases hq
    · next hchar =>
      rw [if_neg hchar] at h
      split at h
      · exact (Option.some.inj h).symm
      · cases h

theorem isLiteral {literal : String} (h : c.literal? typeName = some literal)
    (hclosed : ∀ s, c = .text s → ∀ d ∈ s.toList, d ∉ closers typeName) :
    IsLiteral typeName literal.toList := by
  have hraw := rawText_closed hclosed
  unfold closers at hraw
  cases hq : quote? typeName with
  | some q =>
      rw [literal?_of_quote? hq] at h
      obtain rfl := Option.some.inj h
      rw [hq] at hraw
      rw [String.toList_ofList]
      exact .quoted q hq _ fun hmem => hraw q hmem List.mem_cons_self
  | none =>
      obtain rfl := literal?_of_bare hq h
      rw [hq] at hraw
      exact .bare _ hraw (by simp [hq])

end Constant

theorem IsLiteral.null (typeName : String) : IsLiteral typeName "null".toList :=
  .bare _ (by decide) fun _ hq hhead =>
    ne_of_quote? hq (by decide) (Option.some.inj hhead)

theorem TypeRef.exists_of_isByRef {t : TypeRef} (h : t.isByRef = true) : ∃ u, t = .byRef u := by
  cases t with
  | byRef target => exact ⟨target, rfl⟩
  | named name args => cases h
  | param name => cases h
  | array element rank => cases h
  | pointer target => cases h

/-- A default that is written has an end. -/
theorem Module.isLiteral_of_defaultLiteral {m : Module} {member : String} {p : Parameter}
    {literal : String} (h : m.defaultLiteral member p = .ok (some literal))
    (hclosed : p.HasClosedDefault) :
    IsLiteral p.type.withoutByRef.canonicalName literal.toList := by
  have hdefault : p.hasDefault = true := by
    cases hnone : p.hasDefault with
    | true => rfl
    | false =>
        simp only [defaultLiteral, hnone] at h
        cases h
  cases htype : p.type.isByRef with
  | true =>
      obtain ⟨t, ht⟩ := TypeRef.exists_of_isByRef htype
      cases hc : p.default with
      | none =>
          rw [defaultLiteral_byRef_null ht hdefault hc] at h
          obtain rfl := Option.some.inj (Except.ok.inj h)
          exact .null _
      | some c =>
          rw [defaultLiteral_byRef_constant ht hdefault hc] at h
          cases h
  | false =>
      rw [TypeRef.withoutByRef_of_not_byRef htype]
      cases hc : p.default with
      | none =>
          simp only [defaultLiteral, hdefault, hc, Except.ok.injEq, Option.some.injEq] at h
          split at h
          · exact h ▸ .default
          · exact h ▸ .null _
      | some c =>
          simp only [defaultLiteral, hdefault, hc] at h
          split at h
          · next literal' hliteral =>
            obtain rfl := Option.some.inj (Except.ok.inj h)
            exact Constant.isLiteral hliteral fun s hs => hclosed s hdefault (hs ▸ hc)
          · cases h

end ApiBaseline
