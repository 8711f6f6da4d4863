import ApiBaseline.Proofs.List
import ApiBaseline.Proofs.TypeRef.Names
import ApiBaseline.Proofs.TypeRef.Spelling
import Mathlib.Data.List.Chain
import Mathlib.Data.List.Count

/-!
# Words of an identifier

An identifier puts a space behind each of its words. The canonical name of a type is one
word, although it holds spaces too: they follow the commas between its arguments, and a
word does not end with a comma. So the first word of a text is the same however the text
is read (`IsWord.unique`).

Commas separate parameters as well. But what follows a comma and a space in the name of a
type closes more angle brackets than it opens, since the comma stands inside of one, and
no word as a whole does that. So no word to begin a parameter with stands there
(`IsWord.ne_behind_comma`).
-/

namespace ApiBaseline

/-- What holds of the characters of a text is decided by going through the text, and not
through all characters that there are. -/
instance decidableForallMem (cs : List Char) (p : Char → Prop) [DecidablePred p] :
    Decidable (∀ c ∈ cs, p c) :=
  List.decidableBAll p cs

/-! ## Spaces behind commas -/

/-- Every space of the text follows a comma. -/
structure SpacesFollowCommas (cs : List Char) : Prop where
  head : cs.head? ≠ some ' '
  chain : cs.IsChain fun a b => b = ' ' → a = ','

namespace SpacesFollowCommas

variable {cs ds : List Char}

theorem of_no_space (h : ' ' ∉ cs) : SpacesFollowCommas cs where
  head hhead := h (List.mem_of_head? hhead)
  chain := by
    refine List.isChain_iff_getElem.mpr fun i hi hspace => ?_
    exact absurd (hspace ▸ List.getElem_mem hi) h

theorem append (hcs : SpacesFollowCommas cs) (hds : SpacesFollowCommas ds) :
    SpacesFollowCommas (cs ++ ds) where
  head := by
    rw [List.head?_append]
    cases hhead : cs.head? with
    | none => simpa [hhead] using hds.head
    | some c =>
        have hc := hcs.head
        rw [hhead] at hc
        simpa using hc
  chain := List.isChain_append.mpr ⟨hcs.chain, hds.chain, fun _ _ _ hd hspace =>
    absurd (hspace ▸ hd) hds.head⟩

theorem comma_before {before after : List Char}
    (h : SpacesFollowCommas (before ++ ' ' :: after)) : before.getLast? = some ',' := by
  cases hlast : before.getLast? with
  | none =>
      obtain rfl := List.getLast?_eq_none_iff.mp hlast
      exact absurd rfl h.head
  | some c =>
      have hc := (List.isChain_append.mp h.chain).2.2 c hlast ' ' rfl rfl
      rw [hc]

theorem behind_comma {before after : List Char}
    (h : SpacesFollowCommas (before ++ ',' :: ' ' :: after)) : SpacesFollowCommas after := by
  have hsuffix : (' ' :: after).IsChain fun a b => b = ' ' → a = ',' :=
    (List.isChain_append.mp h.chain).2.1.tail
  obtain ⟨hhead, hchain⟩ := List.isChain_cons.mp hsuffix
  exact ⟨fun hspace => absurd (hhead ' ' hspace rfl) (by decide), hchain⟩

/-- The parts in front of and behind the first space that follows no comma. -/
theorem unique {xs ys : List Char} (hcs : SpacesFollowCommas cs) (hds : SpacesFollowCommas ds)
    (hcs' : cs.getLast? ≠ some ',') (hds' : ds.getLast? ≠ some ',')
    (h : cs ++ ' ' :: xs = ds ++ ' ' :: ys) : cs = ds ∧ xs = ys := by
  obtain ⟨w, rfl, hrest⟩ | ⟨w, rfl, hrest⟩ := List.append_eq_append_iff.mp h
  · cases w with
    | nil => exact ⟨(List.append_nil cs).symm, (List.cons.inj hrest).2⟩
    | cons c w =>
        obtain ⟨rfl, -⟩ := List.cons.inj hrest
        exact absurd hds.comma_before hcs'
  · cases w with
    | nil => exact ⟨List.append_nil ds, (List.cons.inj hrest).2.symm⟩
    | cons c w =>
        obtain ⟨rfl, -⟩ := List.cons.inj hrest
        exact absurd hcs.comma_before hds'

/-- The parts in front of and behind the last space that follows no comma. -/
theorem unique_last {xs ys : List Char} (hcs : SpacesFollowCommas cs)
    (hds : SpacesFollowCommas ds) (hxs : xs.getLast? ≠ some ',') (hys : ys.getLast? ≠ some ',')
    (h : xs ++ ' ' :: cs = ys ++ ' ' :: ds) : xs = ys ∧ cs = ds := by
  have hlast : ∀ {zs w : List Char}, (zs ++ ' ' :: w).getLast? ≠ some ',' →
      w.getLast? ≠ some ',' := by
    intro zs w hne hw
    exact hne (by simp [List.getLast?_cons, hw])
  obtain ⟨w, rfl, hrest⟩ | ⟨w, rfl, hrest⟩ := List.append_eq_append_iff.mp h
  · cases w with
    | nil => exact ⟨(List.append_nil xs).symm, (List.cons.inj hrest).2⟩
    | cons c w =>
        obtain ⟨rfl, rfl⟩ := List.cons.inj hrest
        exact absurd hcs.comma_before (hlast hys)
  · cases w with
    | nil => exact ⟨List.append_nil ys, (List.cons.inj hrest).2.symm⟩
    | cons c w =>
        obtain ⟨rfl, rfl⟩ := List.cons.inj hrest
        exact absurd hds.comma_before (hlast hxs)

end SpacesFollowCommas

/-! ## Angle brackets -/

/-- How many angle brackets the text closes beyond those that it opens. -/
def excess (cs : List Char) : Int := cs.count '>' - cs.count '<'

theorem excess_append (cs ds : List Char) : excess (cs ++ ds) = excess cs + excess ds := by
  simp only [excess, List.count_append]
  omega

theorem excess_eq_zero {cs : List Char} (hopen : '<' ∉ cs) (hclose : '>' ∉ cs) :
    excess cs = 0 := by
  rw [excess, List.count_eq_zero_of_not_mem hopen, List.count_eq_zero_of_not_mem hclose]
  rfl

/-- Behind each comma and space at least `k` brackets are closed beyond those opened. -/
def ClosesBehindCommas (k : Int) (cs : List Char) : Prop :=
  ∀ before after, cs = before ++ ',' :: ' ' :: after → k ≤ excess after

namespace ClosesBehindCommas

variable {cs ds : List Char} {k l : Int}

theorem of_no_space (h : ' ' ∉ cs) : ClosesBehindCommas k cs := by
  rintro before after rfl
  simp at h

theorem append (hcs : ClosesBehindCommas k cs) (hds : ClosesBehindCommas l ds)
    (hspace : ds.head? ≠ some ' ') (hle : l ≤ k + excess ds) :
    ClosesBehindCommas l (cs ++ ds) := by
  intro before after h
  obtain ⟨w, rfl, hafter⟩ | ⟨w, rfl, hafter⟩ := List.append_eq_append_iff.mp h
  · exact hds w after hafter
  · -- The comma is one of the front part, and the space stands there with it.
    match w, hafter with
    | [], hafter => exact hds [] after hafter.symm
    | [c], hafter =>
        obtain ⟨-, rfl⟩ : ',' = c ∧ ' ' :: after = ds := List.cons.inj hafter
        exact absurd rfl hspace
    | c :: d :: w, hafter =>
        obtain ⟨rfl, rfl, rfl⟩ : ',' = c ∧ ' ' = d ∧ after = w ++ ds := by simpa using hafter
        have hw := hcs before w rfl
        rw [excess_append]
        omega

end ClosesBehindCommas

/-! ## Parts of words -/

/-- A text with spaces behind commas only and none of the characters that stand around words. -/
structure IsTidy (cs : List Char) : Prop where
  spaced : SpacesFollowCommas cs
  plain : ∀ c ∈ cs, c ∉ ['(', ')', '=']

namespace IsTidy

variable {cs ds : List Char}

theorem of_plain (h : ∀ c ∈ cs, c ∉ [' ', '(', ')', '=']) : IsTidy cs where
  spaced := .of_no_space fun hmem => h _ hmem (by decide)
  plain c hc hmem := h c hc (List.mem_cons_of_mem ' ' hmem)

theorem append (hcs : IsTidy cs) (hds : IsTidy ds) : IsTidy (cs ++ ds) where
  spaced := hcs.spaced.append hds.spaced
  plain := List.forall_mem_append.mpr ⟨hcs.plain, hds.plain⟩

theorem behindComma (h : IsTidy cs) : IsTidy (',' :: ' ' :: cs) where
  spaced := by
    refine ⟨by simp, List.isChain_cons_cons.mpr ⟨fun _ => rfl, List.isChain_cons.mpr ⟨?_, ?_⟩⟩⟩
    · exact fun c hc hspace => absurd (hspace ▸ hc) h.spaced.head
    · exact h.spaced.chain
  plain := by simpa using h.plain

theorem flatMap {parts : List String} (h : ∀ part ∈ parts, IsTidy part.toList) :
    IsTidy (parts.flatMap fun part => ',' :: ' ' :: part.toList) := by
  induction parts with
  | nil => exact of_plain fun _ hc => absurd hc List.not_mem_nil
  | cons part parts ih =>
      rw [List.forall_mem_cons] at h
      rw [List.flatMap_cons]
      exact h.1.behindComma.append (ih h.2)

theorem angled (h : IsTidy cs) : IsTidy ('<' :: (cs ++ ['>'])) := by
  have hopen : IsTidy ['<'] := .of_plain (by decide)
  have hclose : IsTidy ['>'] := .of_plain (by decide)
  exact hopen.append (h.append hclose)

theorem list {parts : List String} (h : ∀ part ∈ parts, IsTidy part.toList) :
    IsTidy (ApiBaseline.angled parts).toList := by
  cases parts with
  | nil => exact of_plain (by decide)
  | cons part parts =>
      rw [List.forall_mem_cons] at h
      rw [TypeRef.angled_toList]
      exact (h.1.append (.flatMap h.2)).angled

end IsTidy

/-- A tidy text with as many angle brackets closed as opened, of which at least `k` are open
at a comma with a space. -/
structure IsPart (k : Int) (cs : List Char) : Prop extends IsTidy cs where
  balanced : excess cs = 0
  closes : ClosesBehindCommas k cs

namespace IsPart

variable {cs ds : List Char} {k : Int}

theorem of_plain (h : ∀ c ∈ cs, c ∉ [' ', '<', '>', '(', ')', '=']) : IsPart k cs := by
  have hlist : [' ', '(', ')', '='] ⊆ [' ', '<', '>', '(', ')', '='] := by decide
  refine ⟨.of_plain fun c hc hmem => h c hc (hlist hmem), excess_eq_zero ?_ ?_, .of_no_space ?_⟩
  · exact fun hmem => h _ hmem (by decide)
  · exact fun hmem => h _ hmem (by decide)
  · exact fun hmem => h _ hmem (by decide)

theorem inner (h : IsPart 1 cs) : IsPart 0 cs :=
  { h with closes := fun before after heq => Int.le_of_lt (h.closes before after heq) }

theorem append (hcs : IsPart k cs) (hds : IsPart k ds) : IsPart k (cs ++ ds) where
  toIsTidy := hcs.toIsTidy.append hds.toIsTidy
  balanced := by rw [excess_append, hcs.balanced, hds.balanced, Int.add_zero]
  closes := hcs.closes.append hds.closes hds.spaced.head (by rw [hds.balanced, Int.add_zero])

/-- A comma and a space in front, no bracket being open there. -/
theorem behindComma (h : IsPart 0 cs) : IsPart 0 (',' :: ' ' :: cs) where
  toIsTidy := h.toIsTidy.behindComma
  balanced := by
    have hfront : excess [',', ' '] = 0 := by decide
    have hsplit := excess_append [',', ' '] cs
    rw [hfront, h.balanced] at hsplit
    exact hsplit
  closes := by
    intro before after heq
    match before, heq with
    | [], heq =>
        obtain rfl : cs = after := by simpa using heq
        exact h.balanced.ge
    | [c], heq => simp at heq
    | c :: d :: before, heq =>
        obtain ⟨-, -, rfl⟩ : ',' = c ∧ ' ' = d ∧ cs = before ++ ',' :: ' ' :: after := by
          simpa using heq
        exact h.closes before after rfl

theorem flatMap {parts : List String} (h : ∀ part ∈ parts, IsPart 0 part.toList) :
    IsPart 0 (parts.flatMap fun part => ',' :: ' ' :: part.toList) := by
  induction parts with
  | nil => exact of_plain fun _ hc => absurd hc List.not_mem_nil
  | cons part parts ih =>
      rw [List.forall_mem_cons] at h
      rw [List.flatMap_cons]
      exact h.1.behindComma.append (ih h.2)

/-- In angle brackets commas have a bracket open. -/
theorem angled (h : IsPart 0 cs) : IsPart 1 ('<' :: (cs ++ ['>'])) := by
  have hclose : SpacesFollowCommas ['>'] := .of_no_space (by decide)
  have hinner : excess (cs ++ ['>']) = 1 := by
    rw [excess_append, h.balanced]
    decide
  have hbrackets : excess ['<'] + excess (cs ++ ['>']) = 0 := by
    rw [hinner]
    decide
  refine ⟨h.toIsTidy.angled, (excess_append ['<'] (cs ++ ['>'])).trans hbrackets, ?_⟩
  have hcloses : ClosesBehindCommas 1 (cs ++ ['>']) :=
    h.closes.append (.of_no_space (by decide)) hclose.head (by decide)
  have hfront : ClosesBehindCommas 0 ['<'] := .of_no_space (by decide)
  exact hfront.append hcloses (h.spaced.append hclose).head
    (by rw [Int.zero_add]; exact hinner.ge)

end IsPart

/-! ## Words -/

/-- A part that has brackets open at its commas and does not end with a comma. -/
structure IsWord (cs : List Char) : Prop extends IsPart 1 cs where
  ends : ∃ c ∈ cs.getLast?, c ≠ ','

namespace IsWord

variable {cs ds xs ys : List Char}

theorem ne_nil (h : IsWord cs) : cs ≠ [] := by
  rintro rfl
  obtain ⟨c, hc, -⟩ := h.ends
  cases hc

theorem not_comma_last (h : IsWord cs) : cs.getLast? ≠ some ',' := by
  obtain ⟨c, hc, hne⟩ := h.ends
  rw [hc]
  exact fun heq => hne (Option.some.inj heq)

theorem of_plain {c : Char} (hplain : ∀ c ∈ cs, c ∉ [' ', '<', '>', '(', ')', '='])
    (hlast : cs.getLast? = some c) (hc : c ≠ ',') : IsWord cs :=
  ⟨.of_plain hplain, c, hlast, hc⟩

theorem append (hcs : IsPart 1 cs) (hds : IsWord ds) : IsWord (cs ++ ds) := by
  obtain ⟨c, hc, hne⟩ := hds.ends
  refine ⟨hcs.append hds.toIsPart, c, ?_, hne⟩
  rw [List.getLast?_append, hc]
  rfl

theorem angled (h : IsPart 0 cs) : IsWord ('<' :: (cs ++ ['>'])) :=
  ⟨h.angled, '>', List.getLast?_concat (l := '<' :: cs), by decide⟩

/-- **The first word of a text.** -/
theorem unique (hcs : IsWord cs) (hds : IsWord ds) (h : cs ++ ' ' :: xs = ds ++ ' ' :: ys) :
    cs = ds ∧ xs = ys :=
  hcs.spaced.unique hds.spaced hcs.not_comma_last hds.not_comma_last h

/-- What stands behind a comma and a space in a word is no word, nor does one begin there. -/
theorem ne_behind_comma {zs : List Char} (h : IsWord (zs ++ ',' :: ' ' :: cs)) (hds : IsWord ds) :
    cs ++ ' ' :: xs ≠ ds ++ ' ' :: ys := by
  intro heq
  have hlast : cs.getLast? ≠ some ',' := fun hcomma => h.not_comma_last
    (by simp [List.getLast?_cons, hcomma])
  obtain ⟨rfl, -⟩ := h.spaced.behind_comma.unique hds.spaced hlast hds.not_comma_last heq
  have hcloses := h.closes zs cs rfl
  rw [hds.balanced] at hcloses
  exact absurd hcloses (by decide)

end IsWord

/-! ## Names -/

/-- The name has no character that stands between the words of an identifier. -/
def IsPlainName (n : String) : Prop := ∀ c ∈ n.toList, c ∉ [' ', ',', '(', ')', '=']

instance (n : String) : Decidable (IsPlainName n) :=
  inferInstanceAs (Decidable (∀ c ∈ n.toList, c ∉ [' ', ',', '(', ')', '=']))

namespace IsPlainName

variable {n : String}

theorem isTidy (h : IsPlainName n) : IsTidy n.toList := by
  have hlist : [' ', '(', ')', '='] ⊆ [' ', ',', '(', ')', '='] := by decide
  exact .of_plain fun c hc hmem => h c hc (hlist hmem)

/-- A plain name that a reference can be written with is a word. -/
theorem isWord (h : IsPlainName n) (hname : TypeRef.isName n = true) : IsWord n.toList := by
  obtain ⟨hne, hchars⟩ := TypeRef.isName_toList hname
  have hstops : ∀ d ∈ [' ', '<', '>', '(', ')', '='],
      TypeRef.isNameChar d = false ∨ d ∈ [' ', ',', '(', ')', '='] := by decide
  refine .of_plain (fun c hc hmem => ?_) (List.getLast?_eq_some_getLast hne) fun hcomma => ?_
  · rcases hstops c hmem with hmark | hbetween
    · exact Bool.false_ne_true (hmark.symm.trans (hchars c hc))
    · exact h c hc hbetween
  · exact h _ (List.getLast_mem hne) (by rw [hcomma]; decide)

end IsPlainName

/-! ## Types -/

namespace TypeRef

/-- The names in the reference are plain, those of types and those of parameters. -/
structure IsPlain (t : TypeRef) : Prop where
  types : t.NamesIn {n | IsPlainName n}
  params : ∀ n ∈ t.mentions, IsPlainName n

namespace IsPlain

theorem args {t : TypeRef} (h : t.IsPlain) : ∀ a ∈ t.args, a.IsPlain := by
  cases t with
  | named name args =>
      exact fun a ha => ⟨h.types.args a ha,
        fun n hn => h.params n (mem_mentions_named.mpr ⟨a, ha, hn⟩)⟩
  | param n => exact fun _ ha => absurd ha List.not_mem_nil
  | array element rank => exact fun _ ha => absurd ha List.not_mem_nil
  | byRef target => exact fun _ ha => absurd ha List.not_mem_nil
  | pointer target => exact fun _ ha => absurd ha List.not_mem_nil

theorem substitute {t : TypeRef} (h : t.IsPlain) (params : List String) {actuals : List TypeRef}
    (hactuals : ∀ a ∈ actuals, a.IsPlain) : (t.substitute params actuals).IsPlain where
  types := h.types.substitute params fun a ha => (hactuals a ha).types
  params n hn := by
    rw [substitute_eq_bind] at hn
    obtain ⟨k, hk, hn⟩ := mem_mentions_bind.mp hn
    rcases actual_eq_or_mem params actuals k with hparam | hmem
    · rw [hparam, mentions, List.mem_singleton] at hn
      exact hn ▸ h.params k hk
    · exact (hactuals _ hmem).params n hn

theorem withoutByRef {t : TypeRef} (h : t.IsPlain) : t.withoutByRef.IsPlain := by
  cases t <;> exact ⟨h.types, h.params⟩

theorem isTidy {t : TypeRef} (h : t.IsPlain) : IsTidy t.canonicalName.toList := by
  induction t with
  | named name args ih =>
      have hname : IsPlainName name := h.types name (mem_typeNames_named.mpr (Or.inl rfl))
      have hargs : ∀ part ∈ args.map canonicalName, IsTidy part.toList :=
        List.forall_mem_map.mpr fun a ha => ih a ha (h.args a ha)
      rw [canonicalName, spell, spellAll_eq_map, String.toList_append]
      exact hname.isTidy.append (.list hargs)
  | param name => exact (h.params name List.mem_cons_self).isTidy
  | array element rank ih =>
      simp only [canonicalName, spell, String.toList_append, String.toList_ofList]
      have hcommas : IsTidy (List.replicate (rank - 1) ',') := by
        refine .of_plain fun c hc => ?_
        obtain rfl := List.eq_of_mem_replicate hc
        decide
      have hopen : IsTidy "[".toList := .of_plain (by decide)
      have hclose : IsTidy "]".toList := .of_plain (by decide)
      exact (((ih ⟨h.types, h.params⟩).append hopen).append hcommas).append hclose
  | byRef target ih =>
      rw [canonicalName, spell, String.toList_append]
      exact (ih ⟨h.types, h.params⟩).append (.of_plain (by decide))
  | pointer target ih =>
      rw [canonicalName, spell, String.toList_append]
      exact (ih ⟨h.types, h.params⟩).append (.of_plain (by decide))

/-- **The canonical name of a type is one word.** -/
theorem isWord {t : TypeRef} (h : t.IsPlain) (hwf : t.isWellFormed = true) :
    IsWord t.canonicalName.toList := by
  induction t with
  | named name args ih =>
      rw [isWellFormed, areWellFormed_eq_all, Bool.and_eq_true, List.all_eq_true] at hwf
      have hname : IsWord name.toList :=
        IsPlainName.isWord (h.types name (mem_typeNames_named.mpr (Or.inl rfl))) hwf.1
      rw [canonicalName, spell, spellAll_eq_map, String.toList_append]
      cases args with
      | nil => simpa [ApiBaseline.angled] using hname
      | cons a args =>
          have hargs : ∀ b ∈ a :: args, IsPart 0 b.canonicalName.toList := fun b hb =>
            (ih b hb (h.args b hb) (hwf.2 b hb)).toIsPart.inner
          rw [List.forall_mem_cons] at hargs
          have hrest : ∀ part ∈ args.map canonicalName, IsPart 0 part.toList :=
            List.forall_mem_map.mpr hargs.2
          rw [List.map_cons, angled_toList]
          exact .append hname.toIsPart (.angled (hargs.1.append (.flatMap hrest)))
  | param name => exact (h.params name List.mem_cons_self).isWord hwf
  | array element rank ih =>
      rw [isWellFormed, Bool.and_eq_true] at hwf
      simp only [canonicalName, spell, String.toList_append, String.toList_ofList]
      have hopen : IsPart 1 "[".toList := .of_plain (by decide)
      have hcommas : IsPart 1 (List.replicate (rank - 1) ',') := by
        refine .of_plain fun c hc => ?_
        obtain rfl := List.eq_of_mem_replicate hc
        decide
      exact .append (((ih ⟨h.types, h.params⟩ hwf.1).toIsPart.append hopen).append hcommas)
        (.of_plain (by decide) rfl (by decide))
  | byRef target ih =>
      rw [canonicalName, spell, String.toList_append]
      exact .append (ih ⟨h.types, h.params⟩ hwf).toIsPart
        (.of_plain (by decide) rfl (by decide))
  | pointer target ih =>
      rw [canonicalName, spell, String.toList_append]
      exact .append (ih ⟨h.types, h.params⟩ hwf).toIsPart
        (.of_plain (by decide) rfl (by decide))

end IsPlain

end TypeRef

end ApiBaseline
