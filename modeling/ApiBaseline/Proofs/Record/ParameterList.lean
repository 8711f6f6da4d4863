import ApiBaseline.Proofs.Record.Literal
import ApiBaseline.Proofs.TypeRef.Offset
import ApiBaseline.Record.Identifier

/-!
# Lists of parameters in an identifier

A parameter is written as words, the last of which is its type, its name and its default.
Its text tells where the words end: behind a name stands a parenthesis, an equals sign or a
comma with the words of the next parameter, and behind a word stands none of these
(`spaced_unique`). So parameters with plain names, types that are words and defaults that are
literals can be told from the text of their list, whatever stands behind its parenthesis
(`eq_of_listed`).
-/

namespace ApiBaseline

/-! ## Words in a row -/

/-- Words with a space behind each of them. -/
def spaced (ws : List String) : List Char := ws.flatMap fun w => w.toList ++ [' ']

theorem spaced_cons (w : String) (ws : List String) :
    spaced (w :: ws) = w.toList ++ ' ' :: spaced ws := by
  rw [spaced, List.flatMap_cons, List.append_assoc]
  rfl

theorem spaced_append (ws vs : List String) : spaced (ws ++ vs) = spaced ws ++ spaced vs :=
  List.flatMap_append

/-- What can stand behind the name of a parameter. -/
inductive FollowsName : List Char → Prop
  | close (rest : List Char) : FollowsName (')' :: rest)
  | default (rest : List Char) : FollowsName (' ' :: '=' :: rest)
  | next {w : List Char} (hw : IsWord w) (rest : List Char) :
      FollowsName (',' :: ' ' :: (w ++ ' ' :: rest))

/-- A name stands in front of a space, or in the word that the space is behind. -/
theorem IsPlainName.word_cases {n : String} (hn : IsPlainName n) {c : Char}
    {rest w ys : List Char} (h : n.toList ++ c :: rest = w ++ ' ' :: ys) :
    (∃ after, w = n.toList ++ c :: after ∧ rest = after ++ ' ' :: ys) ∨ (c = ' ' ∧ rest = ys) := by
  rcases append_eq_append_cons h.symm with ⟨after, rfl⟩ | ⟨before, hname, hspace⟩
  · rw [List.append_assoc, List.append_cancel_left_eq, List.cons_append, List.cons.injEq] at h
    exact Or.inl ⟨after, rfl, h.2⟩
  · cases before with
    | nil =>
        obtain ⟨rfl, rfl⟩ := List.cons.inj hspace
        exact Or.inr ⟨rfl, rfl⟩
    | cons b before =>
        obtain ⟨rfl, -⟩ := List.cons.inj hspace
        exact absurd (hn ' ' (by simp [hname])) (by decide)

namespace FollowsName

variable {n : String} {cs w ys : List Char}

/-- A name with what follows it is no word with a space behind it. -/
theorem ne_word (h : FollowsName cs) (hn : IsPlainName n) (hw : IsWord w)
    (hys : ys.head? ≠ some '=') : n.toList ++ cs ≠ w ++ ' ' :: ys := by
  intro heq
  cases h with
  | close rest =>
      rcases hn.word_cases heq with ⟨after, rfl, -⟩ | ⟨hspace, -⟩
      · exact absurd (hw.plain ')' (by simp)) (by decide)
      · exact absurd hspace (by decide)
  | default rest =>
      rcases hn.word_cases heq with ⟨after, rfl, -⟩ | ⟨-, rfl⟩
      · have hcomma : ',' ∈ n.toList := List.mem_of_getLast? hw.spaced.comma_before
        exact absurd (hn ',' hcomma) (by decide)
      · exact hys rfl
  | next hv rest =>
      rcases hn.word_cases heq with ⟨after, rfl, hafter⟩ | ⟨hspace, -⟩
      · cases after with
        | nil => exact absurd (hw.not_comma_last) (by simp)
        | cons c after =>
            rw [List.cons_append, List.cons.injEq] at hafter
            obtain ⟨rfl, hafter⟩ := hafter
            exact hw.ne_behind_comma hv hafter.symm
      · exact absurd hspace (by decide)

theorem exists_cons (h : FollowsName cs) :
    ∃ c rest, cs = c :: rest ∧ c ∈ [' ', ',', '(', ')', '='] ∧ c ≠ '=' := by
  cases h with
  | close rest => exact ⟨')', rest, rfl, by decide⟩
  | default rest => exact ⟨' ', _, rfl, by decide⟩
  | next hw rest => exact ⟨',', _, rfl, by decide⟩

theorem head?_ne (h : FollowsName cs) (hn : IsPlainName n) :
    (n.toList ++ cs).head? ≠ some '=' := by
  obtain ⟨c, rest, rfl, -, hne⟩ := h.exists_cons
  cases hname : n.toList with
  | nil => exact fun heq => hne (Option.some.inj heq)
  | cons d name =>
      intro heq
      obtain rfl := Option.some.inj heq
      exact hn '=' (by simp [hname]) (by decide)

/-- **A name and what follows it.** -/
theorem name_unique {k : String} {ds : List Char} (hcs : FollowsName cs) (hds : FollowsName ds)
    (hn : IsPlainName n) (hk : IsPlainName k) (h : n.toList ++ cs = k.toList ++ ds) :
    n = k ∧ cs = ds := by
  obtain ⟨c, rest, rfl, hc, -⟩ := hcs.exists_cons
  obtain ⟨d, rest', rfl, hd, -⟩ := hds.exists_cons
  obtain ⟨hnames, rfl, rfl⟩ :=
    eq_of_append_cons (p := (· ∈ [' ', ',', '(', ')', '='])) hn hk hc hd h
  exact ⟨String.toList_inj.mp hnames, rfl⟩

end FollowsName

theorem head?_spaced_ne {ws : List String} (hws : ∀ w ∈ ws, IsWord w.toList) {n : String}
    {cs : List Char} (hn : IsPlainName n) (hcs : FollowsName cs) :
    (spaced ws ++ (n.toList ++ cs)).head? ≠ some '=' := by
  cases ws with
  | nil => exact hcs.head?_ne hn
  | cons w ws =>
      have hw := hws w List.mem_cons_self
      rw [spaced_cons]
      cases hword : w.toList with
      | nil => exact absurd hword hw.ne_nil
      | cons c rest =>
          intro heq
          obtain rfl := Option.some.inj heq
          exact hw.plain '=' (by simp [hword]) (by decide)

/-- **Words in front of a name.** -/
theorem spaced_unique {ws vs : List String} (hws : ∀ w ∈ ws, IsWord w.toList)
    (hvs : ∀ v ∈ vs, IsWord v.toList) {n k : String} {cs ds : List Char} (hn : IsPlainName n)
    (hk : IsPlainName k) (hcs : FollowsName cs) (hds : FollowsName ds)
    (h : spaced ws ++ (n.toList ++ cs) = spaced vs ++ (k.toList ++ ds)) :
    ws = vs ∧ n = k ∧ cs = ds := by
  induction ws generalizing vs with
  | nil =>
      cases vs with
      | nil =>
          exact ⟨rfl, hcs.name_unique hds hn hk h⟩
      | cons v vs =>
          rw [List.forall_mem_cons] at hvs
          rw [spaced_cons, List.append_assoc] at h
          exact absurd h (hcs.ne_word hn hvs.1 (head?_spaced_ne hvs.2 hk hds))
  | cons w ws ih =>
      rw [List.forall_mem_cons] at hws
      cases vs with
      | nil =>
          rw [spaced_cons, List.append_assoc] at h
          exact absurd h.symm (hds.ne_word hk hws.1 (head?_spaced_ne hws.2 hn hcs))
      | cons v vs =>
          rw [List.forall_mem_cons] at hvs
          rw [spaced_cons, spaced_cons, List.append_assoc, List.append_assoc] at h
          obtain ⟨hword, hrest⟩ := hws.1.unique hvs.1 h
          obtain ⟨rfl, hsame⟩ := ih hws.2 hvs.2 hrest
          exact ⟨by rw [String.toList_inj.mp hword], hsame⟩

theorem mem_of_mem_wordsWhen {rows : List (Bool × String)} {w : String}
    (hw : w ∈ wordsWhen rows) : w ∈ rows.map (·.2) := by
  obtain ⟨row, hrow, rfl⟩ := List.mem_map.mp hw
  exact List.mem_map_of_mem (List.mem_of_mem_filter hrow)

/-! ## Parameters -/

namespace ParameterRecord

/-- The record can be told from its text: its type is a word, its name is plain, and its
default is a literal of its type. -/
structure IsLegible (p : ParameterRecord) : Prop where
  type : IsWord p.typeName.toList
  name : IsPlainName p.name
  default : ∀ literal ∈ p.defaultValue, IsLiteral p.typeName literal.toList

/-- The words in front of a parameter's type; `isFirst` marks the first one of an extension
method. -/
def keywords (isFirst : Bool) (p : ParameterRecord) : List String :=
  wordsWhen [(isFirst, "this"), (p.isVariadic, "params"), (p.direction = .ref, "ref"),
    (p.direction = .out, "out")]

/-- What is written behind a parameter's name. -/
def initial (p : ParameterRecord) : List Char :=
  match p.defaultValue with
  | some literal => " = ".toList ++ literal.toList
  | none => []

/-- The characters of a parameter in a list. -/
def chars (isFirst : Bool) (p : ParameterRecord) : List Char :=
  spaced (p.keywords isFirst ++ [p.typeName]) ++ (p.name.toList ++ p.initial)

theorem declaration_toList (p : ParameterRecord) : p.declaration.toList = p.chars false := by
  cases hvariadic : p.isVariadic <;> cases hdirection : p.direction <;>
    cases hdefault : p.defaultValue <;>
    simp [declaration, chars, spaced, keywords, initial, wordsWhen, Direction.keyword, hvariadic,
      hdirection, hdefault]

theorem chars_true (p : ParameterRecord) : p.chars true = "this ".toList ++ p.chars false := by
  simp [chars, spaced, keywords, wordsWhen]

theorem keywords_inj {isFirst isFirst' : Bool} {p q : ParameterRecord}
    (h : p.keywords isFirst = q.keywords isFirst') :
    p.isVariadic = q.isVariadic ∧ p.direction = q.direction := by
  unfold keywords at h
  generalize p.isVariadic = variadic, p.direction = direction, q.isVariadic = variadic',
    q.direction = direction' at h ⊢
  revert h
  cases isFirst <;> cases isFirst' <;> cases variadic <;> cases variadic' <;>
    cases direction <;> cases direction' <;> decide

theorem isWord_of_mem_keywords {isFirst : Bool} {p : ParameterRecord} :
    ∀ w ∈ p.keywords isFirst, IsWord w.toList := by
  have hwords : ∀ w ∈ ["this", "params", "ref", "out"], IsWord w.toList := by
    simp only [List.forall_mem_cons]
    refine ⟨.of_plain (by decide) rfl (by decide), .of_plain (by decide) rfl (by decide),
      .of_plain (by decide) rfl (by decide), .of_plain (by decide) rfl (by decide), by simp⟩
  exact fun w hw => hwords w (mem_of_mem_wordsWhen hw)

variable {p q : ParameterRecord} {isFirst isFirst' : Bool} {xs ys : List Char}

theorem IsLegible.words (h : p.IsLegible) :
    ∀ w ∈ p.keywords isFirst ++ [p.typeName], IsWord w.toList :=
  List.forall_mem_append.mpr ⟨isWord_of_mem_keywords, by simpa using h.type⟩

theorem followsName_initial (p : ParameterRecord) (h : FollowsName xs) :
    FollowsName (p.initial ++ xs) := by
  unfold initial
  split
  · exact .default _
  · exact h

/-- What can stand behind a parameter: behind its name, and behind its default. -/
structure Ends (cs : List Char) : Prop where
  name : FollowsName cs
  literal : EndsLiteral cs

/-- Only a default begins with an equals sign. -/
theorem initial_unique (hp : p.IsLegible) (hq : q.IsLegible) (htype : p.typeName = q.typeName)
    (hxs : EndsLiteral xs) (hys : EndsLiteral ys) (h : p.initial ++ xs = q.initial ++ ys) :
    p.defaultValue = q.defaultValue ∧ xs = ys := by
  have hends : ∀ {cs ds : List Char}, EndsLiteral cs → cs ≠ ' ' :: ds := by
    rintro cs ds ⟨c, rest, rfl, hc⟩ heq
    obtain rfl := (List.cons.inj heq).1
    exact absurd hc (by decide)
  unfold initial at h
  cases hpd : p.defaultValue with
  | none =>
      cases hqd : q.defaultValue with
      | none => exact ⟨rfl, by simpa [hpd, hqd] using h⟩
      | some k =>
          simp only [hpd, hqd] at h
          exact absurd h (hends hxs)
  | some l =>
      cases hqd : q.defaultValue with
      | none =>
          simp only [hpd, hqd] at h
          exact absurd h.symm (hends hys)
      | some k =>
          simp only [hpd, hqd, List.append_assoc, List.append_cancel_left_eq] at h
          obtain ⟨hliteral, hrest⟩ :=
            (hp.default l hpd).unique (htype ▸ hq.default k hqd) hxs hys h
          exact ⟨by rw [String.toList_inj.mp hliteral], hrest⟩

/-- **A parameter in front of a text.** -/
theorem eq_of_chars (hp : p.IsLegible) (hq : q.IsLegible) (hxs : Ends xs) (hys : Ends ys)
    (h : p.chars isFirst ++ xs = q.chars isFirst' ++ ys) : p = q ∧ xs = ys := by
  simp only [chars, List.append_assoc] at h
  obtain ⟨hwords, hname, hrest⟩ := spaced_unique hp.words hq.words hp.name hq.name
    (p.followsName_initial hxs.name) (q.followsName_initial hys.name) h
  obtain ⟨hkeywords, htypes⟩ := List.append_inj' hwords rfl
  have htype : p.typeName = q.typeName := List.singleton_inj.mp htypes
  obtain ⟨hvariadic, hdirection⟩ := keywords_inj hkeywords
  obtain ⟨hdefault, hsame⟩ := initial_unique hp hq htype hxs.literal hys.literal hrest
  refine ⟨?_, hsame⟩
  cases p
  cases q
  simp only at hname htype hdirection hdefault hvariadic
  rw [hname, htype, hdirection, hdefault, hvariadic]

/-- A parameter begins with a word. -/
theorem IsLegible.exists_word (h : p.IsLegible) (isFirst : Bool) :
    ∃ w rest, IsWord w ∧ p.chars isFirst = w ++ ' ' :: rest := by
  have hwords : ∀ w ∈ p.keywords isFirst ++ [p.typeName], IsWord w.toList := h.words
  rw [chars]
  cases hall : p.keywords isFirst ++ [p.typeName] with
  | nil => exact absurd hall (by simp)
  | cons w ws =>
      rw [hall] at hwords
      exact ⟨w.toList, _, hwords w List.mem_cons_self, by rw [spaced_cons, List.append_assoc]; rfl⟩

end ParameterRecord

/-! ## Lists -/

section

open ParameterRecord

/-- The characters of further parameters, each behind a comma. -/
def furtherChars (ps : List ParameterRecord) : List Char :=
  ps.flatMap fun p => ',' :: ' ' :: p.chars false

/-- The characters of a list of parameters. -/
def listChars (isFirst : Bool) : List ParameterRecord → List Char
  | [] => []
  | p :: ps => p.chars isFirst ++ furtherChars ps

theorem furtherChars_cons (p : ParameterRecord) (ps : List ParameterRecord) :
    furtherChars (p :: ps) = ',' :: ' ' :: (p.chars false ++ furtherChars ps) := by
  rw [furtherChars, List.flatMap_cons]
  rfl

theorem parameterList_toList (m : MemberRecord) :
    m.parameterList.toList = listChars m.isExtension m.parameters := by
  have hfurther : ∀ ps : List ParameterRecord,
      (ps.map (·.declaration)).flatMap (fun s => ',' :: ' ' :: s.toList) = furtherChars ps := by
    intro ps
    simp only [List.flatMap_map, declaration_toList]
    rfl
  unfold MemberRecord.parameterList
  cases m.parameters with
  | nil => cases m.isExtension <;> rfl
  | cons p ps =>
      cases m.isExtension with
      | false =>
          simp only [List.map_cons]
          rw [TypeRef.intercalate_toList, hfurther, declaration_toList, listChars]
      | true =>
          simp only [List.map_cons]
          rw [TypeRef.intercalate_toList, hfurther, String.toList_append, declaration_toList,
            ← chars_true, listChars]

variable {ps qs : List ParameterRecord} {isFirst isFirst' : Bool} {xs ys : List Char}

/-- Behind a parameter stand further ones and a parenthesis. -/
theorem ends_further (hps : ∀ p ∈ ps, p.IsLegible) (xs : List Char) :
    Ends (furtherChars ps ++ ')' :: xs) := by
  cases ps with
  | nil => exact ⟨.close xs, ')', xs, rfl, by decide⟩
  | cons p ps =>
      obtain ⟨w, rest, hw, hchars⟩ := (hps p List.mem_cons_self).exists_word false
      rw [furtherChars_cons, hchars]
      simp only [List.cons_append, List.append_assoc]
      exact ⟨.next hw _, ',', _, rfl, by decide⟩

/-- A parameter with further ones in front of a parenthesis. -/
theorem eq_of_first {p q : ParameterRecord} (hps : ∀ p' ∈ p :: ps, p'.IsLegible)
    (hqs : ∀ q' ∈ q :: qs, q'.IsLegible)
    (h : p.chars isFirst ++ (furtherChars ps ++ ')' :: xs)
      = q.chars isFirst' ++ (furtherChars qs ++ ')' :: ys)) :
    p = q ∧ furtherChars ps ++ ')' :: xs = furtherChars qs ++ ')' :: ys := by
  rw [List.forall_mem_cons] at hps hqs
  exact eq_of_chars hps.1 hqs.1 (ends_further hps.2 xs) (ends_further hqs.2 ys) h

theorem eq_of_further (hps : ∀ p ∈ ps, p.IsLegible) (hqs : ∀ q ∈ qs, q.IsLegible)
    (h : furtherChars ps ++ ')' :: xs = furtherChars qs ++ ')' :: ys) : ps = qs := by
  induction ps generalizing qs with
  | nil =>
      cases qs with
      | nil => rfl
      | cons q qs =>
          rw [furtherChars_cons] at h
          exact absurd (List.cons.inj h).1 (by decide)
  | cons p ps ih =>
      cases qs with
      | nil =>
          rw [furtherChars_cons] at h
          exact absurd (List.cons.inj h).1 (by decide)
      | cons q qs =>
          simp only [furtherChars_cons, List.cons_append, List.append_assoc, List.cons.injEq,
            true_and] at h
          obtain ⟨rfl, hrest⟩ := eq_of_first hps hqs h
          rw [ih (fun p' hp' => hps p' (List.mem_cons_of_mem _ hp'))
            (fun q' hq' => hqs q' (List.mem_cons_of_mem _ hq')) hrest]

/-- A list that is not empty does not begin with its parenthesis. -/
theorem close_ne_chars {q : ParameterRecord} (hq : q.IsLegible) :
    ')' :: xs ≠ q.chars isFirst ++ ys := by
  obtain ⟨w, more, hw, hchars⟩ := hq.exists_word isFirst
  rw [hchars, List.append_assoc]
  intro heq
  cases w with
  | nil => exact hw.ne_nil rfl
  | cons c w =>
      obtain rfl := (List.cons.inj heq).1
      exact hw.plain ')' List.mem_cons_self (by decide)

/-- **A list of parameters in front of a parenthesis.** -/
theorem eq_of_listed (hps : ∀ p ∈ ps, p.IsLegible) (hqs : ∀ q ∈ qs, q.IsLegible)
    (h : listChars isFirst ps ++ ')' :: xs = listChars isFirst' qs ++ ')' :: ys) : ps = qs := by
  cases ps with
  | nil =>
      cases qs with
      | nil => rfl
      | cons q qs =>
          rw [listChars, listChars, List.append_assoc] at h
          exact absurd h (close_ne_chars (hqs q List.mem_cons_self))
  | cons p ps =>
      cases qs with
      | nil =>
          rw [listChars, listChars, List.append_assoc] at h
          exact absurd h.symm (close_ne_chars (hps p List.mem_cons_self))
      | cons q qs =>
          rw [listChars, listChars, List.append_assoc, List.append_assoc] at h
          obtain ⟨rfl, hrest⟩ := eq_of_first hps hqs h
          rw [eq_of_further (fun p' hp' => hps p' (List.mem_cons_of_mem _ hp'))
            (fun q' hq' => hqs q' (List.mem_cons_of_mem _ hq')) hrest]

end

end ApiBaseline
