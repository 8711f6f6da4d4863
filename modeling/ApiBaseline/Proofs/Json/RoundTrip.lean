import ApiBaseline.Json.Reader
import ApiBaseline.Proofs.Json.Quoted

/-!
# Written values are read back

A value has a token list of its own (`tokenList`). Written over several lines,
it is cut into these tokens however far it is indented: what stands between
them is white space, and only a word needs what follows it to end
(`scan_prettyChars`). The reading machine takes the tokens of a value for one
value, whatever arrays and objects are open around it (`run_tokenList`). So a
legible value is what its text is read as (`parse_pretty`).

Legible is a value that has a written form of its own: nothing in it is broken,
and its numbers are read as they are written.
-/

namespace ApiBaseline.Json

/-! ## Legible values -/

/-- The characters are one word, with this value. -/
def IsWord (cs : List Char) (v : Json) : Prop :=
  cs ≠ [] ∧ (∀ c ∈ cs, Token.Mode.endsWord c = false) ∧ Token.word? cs = some v

mutual

/-- Nothing in the value is broken, and its numbers are words. -/
def Legible : Json → Prop
  | null => True
  | boolean _ => True
  | number n => IsWord n.chars (number n)
  | text _ => True
  | array items => ItemsLegible items
  | object fields => FieldsLegible fields
  | broken => False
  | brokenObject _ => False

def ItemsLegible : List Json → Prop
  | [] => True
  | v :: vs => v.Legible ∧ ItemsLegible vs

def FieldsLegible : List (String × Json) → Prop
  | [] => True
  | (_, v) :: fs => v.Legible ∧ FieldsLegible fs

end

theorem itemsLegible_of_forall {vs : List Json} (h : ∀ v ∈ vs, v.Legible) :
    ItemsLegible vs := by
  induction vs with
  | nil => trivial
  | cons v vs ih =>
      exact ⟨h v List.mem_cons_self, ih fun w hw => h w (List.mem_cons_of_mem _ hw)⟩

theorem fieldsLegible_append {fs gs : List (String × Json)} :
    FieldsLegible (fs ++ gs) ↔ FieldsLegible fs ∧ FieldsLegible gs := by
  induction fs with
  | nil => simp [FieldsLegible]
  | cons f fs ih => simp [FieldsLegible, ih, and_assoc]

/-! ## Tokens -/

mutual

def tokenList : Json → List Token
  | array [] => [.openBracket, .closeBracket]
  | array (v :: vs) => .openBracket :: v.tokenList ++ furtherItems vs ++ [.closeBracket]
  | object [] => [.openBrace, .closeBrace]
  | object ((k, v) :: fs) =>
    .openBrace :: .scalar (text k) :: .colon :: v.tokenList ++ furtherFields fs
      ++ [.closeBrace]
  | v => [.scalar v]

/-- The tokens of further items, each behind a comma. -/
def furtherItems : List Json → List Token
  | [] => []
  | v :: vs => .comma :: v.tokenList ++ furtherItems vs

/-- The tokens of further fields, each behind a comma. -/
def furtherFields : List (String × Json) → List Token
  | [] => []
  | (k, v) :: fs =>
    .comma :: .scalar (text k) :: .colon :: v.tokenList ++ furtherFields fs

end

/-! ## Scanning -/

/-- What stands behind a word: the end, or a character that is no part of it. -/
def EndsWord (cs : List Char) : Prop := ∀ c ∈ cs.head?, Token.Mode.endsWord c = true

theorem endsWord_cons {c : Char} {cs : List Char} (h : Token.Mode.endsWord c = true) :
    EndsWord (c :: cs) := by
  intro d hd
  obtain rfl := Option.some.inj hd
  exact h

theorem begin_of_not_endsWord {c : Char} (h : Token.Mode.endsWord c = false) :
    Token.Mode.begin c = ([], .word [c]) := by
  simp only [Token.Mode.endsWord, Bool.or_eq_false_iff, beq_eq_false_iff_ne,
    Option.isSome_eq_false_iff, Option.isNone_iff_eq_none] at h
  obtain ⟨⟨hspace, hquote⟩, hnone⟩ := h
  rw [Token.Mode.begin, if_neg (by simp [hspace]), if_neg hquote, hnone]

/-- A word goes on as long as no character ends it. -/
theorem scans_word (run cs : List Char) (h : ∀ c ∈ cs, Token.Mode.endsWord c = false) :
    Token.Scans (.word run) cs [] (.word (cs.reverse ++ run)) := by
  induction cs generalizing run with
  | nil => exact Token.Scans.nil _
  | cons c cs ih =>
      have hstep : Token.Mode.step (.word run) c = some ([], .word (c :: run)) := by
        rw [Token.Mode.step, if_neg (by simp [h c List.mem_cons_self])]
      have hrest := ih (c :: run) fun d hd => h d (List.mem_cons_of_mem _ hd)
      rw [List.reverse_cons, List.append_assoc]
      exact Token.Scans.cons hstep hrest

/-- A word is a token where something ends it. -/
theorem scan_word {cs : List Char} {v : Json} (h : IsWord cs v) {rest : List Char}
    (hrest : EndsWord rest) (done : List Token) :
    Token.Mode.between.scan done (cs ++ rest)
      = Token.Mode.between.scan (.scalar v :: done) rest := by
  obtain ⟨hne, hall, hword⟩ := h
  cases cs with
  | nil => exact absurd rfl hne
  | cons c cs =>
      have hbegin : Token.Mode.step .between c = some ([], .word [c]) := by
        rw [Token.Mode.step, begin_of_not_endsWord (hall c List.mem_cons_self)]
      have hrun : Token.Scans .between (c :: cs) [] (.word (c :: cs).reverse) := by
        rw [List.reverse_cons]
        exact Token.Scans.cons hbegin
          (scans_word [c] cs fun d hd => hall d (List.mem_cons_of_mem _ hd))
      rw [hrun done rest]
      -- The character behind a word ends it and begins what follows, in one step.
      cases rest with
      | nil => simp [Token.Mode.scan, Token.Mode.finish, hword]
      | cons d rest =>
          have hd : Token.Mode.endsWord d = true := hrest d rfl
          have hword_step : Token.Mode.step (.word (c :: cs).reverse) d
              = some (.scalar v :: (Token.Mode.begin d).1, (Token.Mode.begin d).2) := by
            rw [Token.Mode.step, if_pos hd, List.reverse_reverse, hword]
            rfl
          have hbetween_step : Token.Mode.step .between d = some (Token.Mode.begin d) := rfl
          rw [Token.Mode.scan, Token.Mode.scan, hword_step, hbetween_step]
          simp

theorem isWord_of_all {cs : List Char} {v : Json} (hne : cs ≠ [])
    (hall : cs.all (!Token.Mode.endsWord ·) = true) (hword : Token.word? cs = some v) :
    IsWord cs v :=
  ⟨hne, fun c hc => by simpa using List.all_eq_true.mp hall c hc, hword⟩

theorem isWord_null : IsWord "null".toList null := isWord_of_all (by decide) rfl rfl

theorem isWord_true : IsWord "true".toList (boolean true) :=
  isWord_of_all (by decide) rfl rfl

theorem isWord_false : IsWord "false".toList (boolean false) :=
  isWord_of_all (by decide) rfl rfl

theorem scans_punctuation {c : Char} {t : Token} (h : Token.Mode.begin c = ([t], .between)) :
    Token.Scans .between [c] [t] .between :=
  Token.Scans.cons (by rw [Token.Mode.step, h]) (Token.Scans.nil _)

/-- White space holds no token. -/
theorem scans_spaces (cs : List Char) (h : ∀ c ∈ cs, Token.isSpace c = true) :
    Token.Scans .between cs [] .between := by
  induction cs with
  | nil => exact Token.Scans.nil _
  | cons c cs ih =>
      have hstep : Token.Mode.step .between c = some ([], .between) := by
        rw [Token.Mode.step, Token.Mode.begin, if_pos (h c List.mem_cons_self)]
      exact Token.Scans.cons hstep (ih fun d hd => h d (List.mem_cons_of_mem _ hd))

theorem scans_newLine (indent : Nat) : Token.Scans .between (newLine indent) [] .between := by
  refine scans_spaces _ fun c hc => ?_
  rcases List.mem_cons.mp hc with rfl | hc'
  · rfl
  · rw [List.eq_of_mem_replicate hc']; rfl

/-- The characters before a field's value are its name and the colon. -/
theorem scans_name (k : String) :
    Token.Scans .between (quotedChars k ++ [':', ' ']) [.scalar (text k), .colon] .between :=
  (Token.scans_quoted k).append
    ((scans_punctuation rfl).append (scans_spaces [' '] (List.forall_mem_singleton.mpr rfl)))

theorem endsWord_newLine (indent : Nat) (cs : List Char) :
    EndsWord (newLine indent ++ cs) := endsWord_cons rfl

theorem endsWord_prettyItems (indent : Nat) (vs : List Json) {rest : List Char}
    (h : EndsWord rest) : EndsWord (prettyItems indent vs ++ rest) := by
  cases vs with
  | nil => exact h
  | cons v vs => exact endsWord_cons rfl

theorem endsWord_prettyFields (indent : Nat) (fs : List (String × Json)) {rest : List Char}
    (h : EndsWord rest) : EndsWord (prettyFields indent fs ++ rest) := by
  cases fs with
  | nil => exact h
  | cons f fs => exact endsWord_cons rfl

mutual

/-- A legible value is cut into its tokens, however far it is indented. -/
theorem scan_prettyChars : (v : Json) → v.Legible → ∀ (indent : Nat) (done : List Token)
    {rest : List Char}, EndsWord rest →
    Token.Mode.between.scan done (v.prettyChars indent ++ rest)
      = Token.Mode.between.scan (v.tokenList.reverse ++ done) rest
  | null, _, _, done, _, hrest => scan_word isWord_null hrest done
  | boolean true, _, _, done, _, hrest => scan_word isWord_true hrest done
  | boolean false, _, _, done, _, hrest => scan_word isWord_false hrest done
  | number _, h, _, done, _, hrest => scan_word h hrest done
  | text s, _, _, done, rest, _ => Token.scans_quoted s done rest
  | array [], _, _, done, rest, _ =>
      (scans_punctuation (c := '[') rfl).append (scans_punctuation (c := ']') rfl) done rest
  | array (v :: vs), h, indent, done, rest, _ => by
      have hopen : Token.Scans .between ('[' :: newLine (indent + 1)) [.openBracket] .between :=
        (scans_punctuation rfl).append (scans_newLine _)
      have hclose : Token.Scans .between (newLine indent ++ [']']) [.closeBracket] .between :=
        (scans_newLine _).append (scans_punctuation rfl)
      have hends := endsWord_newLine indent (']' :: rest)
      have hchars : (array (v :: vs)).prettyChars indent ++ rest
          = ('[' :: newLine (indent + 1)) ++ (v.prettyChars (indent + 1)
            ++ (prettyItems (indent + 1) vs ++ ((newLine indent ++ [']']) ++ rest))) := by
        simp [prettyChars]
      have htokens : (array (v :: vs)).tokenList.reverse ++ done
          = .closeBracket :: ((furtherItems vs).reverse
            ++ (v.tokenList.reverse ++ .openBracket :: done)) := by
        simp [tokenList]
      rw [hchars, hopen, scan_prettyChars v h.1 _ _
          (endsWord_prettyItems _ vs (by simpa using hends)),
        scan_prettyItems vs h.2 _ _ (by simpa using hends), hclose, htokens]
      rfl
  | object [], _, _, done, rest, _ =>
      (scans_punctuation (c := '\x7b') rfl).append (scans_punctuation (c := '\x7d') rfl)
        done rest
  | object ((k, v) :: fs), h, indent, done, rest, _ => by
      have hopen : Token.Scans .between ('\x7b' :: newLine (indent + 1)) [.openBrace]
          .between := (scans_punctuation rfl).append (scans_newLine _)
      have hclose : Token.Scans .between (newLine indent ++ ['\x7d']) [.closeBrace]
          .between := (scans_newLine _).append (scans_punctuation rfl)
      have hends := endsWord_newLine indent ('\x7d' :: rest)
      have hchars : (object ((k, v) :: fs)).prettyChars indent ++ rest
          = ('\x7b' :: newLine (indent + 1)) ++ ((quotedChars k ++ [':', ' '])
            ++ (v.prettyChars (indent + 1) ++ (prettyFields (indent + 1) fs
              ++ ((newLine indent ++ ['\x7d']) ++ rest)))) := by
        simp [prettyChars]
      have htokens : (object ((k, v) :: fs)).tokenList.reverse ++ done
          = .closeBrace :: ((furtherFields fs).reverse ++ (v.tokenList.reverse
            ++ .colon :: .scalar (text k) :: .openBrace :: done)) := by
        simp [tokenList]
      rw [hchars, hopen, scans_name, scan_prettyChars v h.1 _ _
          (endsWord_prettyFields _ fs (by simpa using hends)),
        scan_prettyFields fs h.2 _ _ (by simpa using hends), hclose, htokens]
      rfl
  | broken, h, _, _, _, _ => h.elim
  | brokenObject _, h, _, _, _, _ => h.elim

theorem scan_prettyItems : (vs : List Json) → ItemsLegible vs → ∀ (indent : Nat)
    (done : List Token) {rest : List Char}, EndsWord rest →
    Token.Mode.between.scan done (prettyItems indent vs ++ rest)
      = Token.Mode.between.scan ((furtherItems vs).reverse ++ done) rest
  | [], _, _, _, _, _ => rfl
  | v :: vs, h, indent, done, rest, hrest => by
      have hcomma : Token.Scans .between (',' :: newLine indent) [.comma] .between :=
        (scans_punctuation rfl).append (scans_newLine _)
      have hchars : prettyItems indent (v :: vs) ++ rest
          = (',' :: newLine indent)
            ++ (v.prettyChars indent ++ (prettyItems indent vs ++ rest)) := by
        simp [prettyItems]
      rw [hchars, hcomma, scan_prettyChars v h.1 _ _ (endsWord_prettyItems _ vs hrest),
        scan_prettyItems vs h.2 _ _ hrest]
      simp [furtherItems]

theorem scan_prettyFields : (fs : List (String × Json)) → FieldsLegible fs →
    ∀ (indent : Nat) (done : List Token) {rest : List Char}, EndsWord rest →
    Token.Mode.between.scan done (prettyFields indent fs ++ rest)
      = Token.Mode.between.scan ((furtherFields fs).reverse ++ done) rest
  | [], _, _, _, _, _ => rfl
  | (k, v) :: fs, h, indent, done, rest, hrest => by
      have hcomma : Token.Scans .between (',' :: newLine indent) [.comma] .between :=
        (scans_punctuation rfl).append (scans_newLine _)
      have hchars : prettyFields indent ((k, v) :: fs) ++ rest
          = (',' :: newLine indent) ++ ((quotedChars k ++ [':', ' '])
            ++ (v.prettyChars indent ++ (prettyFields indent fs ++ rest))) := by
        simp [prettyFields]
      rw [hchars, hcomma, scans_name,
        scan_prettyChars v h.1 _ _ (endsWord_prettyFields _ fs hrest),
        scan_prettyFields fs h.2 _ _ hrest]
      simp [furtherFields]

end

/-- A written text is cut into the tokens of its value. -/
theorem tokens_pretty {v : Json} (h : v.Legible) :
    tokens v.pretty.toList = ⟨v.tokenList, true⟩ := by
  have hends : EndsWord ['\n'] := endsWord_cons rfl
  have hend := scans_spaces ['\n'] (List.forall_mem_singleton.mpr rfl) v.tokenList.reverse []
  rw [List.append_nil] at hend
  rw [tokens, pretty, String.toList_ofList, scan_prettyChars v h 0 [] hends,
    List.append_nil, hend]
  simp [Token.Mode.scan, Token.Mode.finish]

/-! ## Reading -/

/-- Where an item may begin or the array may end, a value is read like any
other: its first token does not end the array. -/
theorem run_firstItem (frames : List Frame) (v : Json) (ts : List Token) :
    Reading.run ⟨frames, .firstItem⟩ (v.tokenList ++ ts)
      = Reading.run ⟨.array [] :: frames, .value⟩ (v.tokenList ++ ts) := by
  unfold tokenList
  split <;> rfl

/-- The fields that have been read, the last one first. -/
def readFields (fs : List (String × Json)) : ReadFields :=
  (fs.map fun (k, v) => (some k, v)).reverse

theorem namedFields_map (fs : List (String × Json)) :
    namedFields (fs.map fun (k, v) => (some k, v)) = ⟨fs, true⟩ := by
  induction fs with
  | nil => rfl
  | cons f fs ih => rw [List.map_cons, namedFields, ih]; rfl

theorem closeObject_readFields (fs : List (String × Json)) :
    closeObject (readFields fs) = .object fs := by
  rw [closeObject, readFields, List.reverse_reverse, namedFields_map]
  rfl

theorem readFields_concat (fs : List (String × Json)) (k : String) (v : Json) :
    readFields (fs ++ [(k, v)]) = (some k, v) :: readFields fs := by
  simp [readFields]

mutual

/-- The machine takes the tokens of a value for one value, whatever is open
around it. -/
theorem run_tokenList : (v : Json) → v.Legible → ∀ (frames : List Frame) (ts : List Token),
    Reading.run ⟨frames, .value⟩ (v.tokenList ++ ts)
      = Reading.run ⟨frames, .complete v⟩ ts
  | null, _, _, _ => rfl
  | boolean _, _, _, _ => rfl
  | number _, _, _, _ => rfl
  | text _, _, _, _ => rfl
  | array [], _, _, _ => rfl
  | array (v :: vs), h, frames, ts => by
      have hopen : Reading.run ⟨frames, .value⟩ ((array (v :: vs)).tokenList ++ ts)
          = Reading.run ⟨frames, .firstItem⟩
            (v.tokenList ++ (furtherItems vs ++ .closeBracket :: ts)) := by
        rw [tokenList, List.append_assoc, List.append_assoc]
        rfl
      rw [hopen, run_firstItem, run_tokenList v h.1]
      exact run_furtherItems vs h.2 frames [] v ts
  | object [], _, _, _ => rfl
  | object ((k, v) :: fs), h, frames, ts => by
      have hopen : Reading.run ⟨frames, .value⟩ ((object ((k, v) :: fs)).tokenList ++ ts)
          = Reading.run ⟨.object [] (some k) :: frames, .value⟩
            (v.tokenList ++ (furtherFields fs ++ .closeBrace :: ts)) := by
        rw [tokenList, List.append_assoc, List.append_assoc]
        rfl
      rw [hopen, run_tokenList v h.1]
      exact run_furtherFields fs h.2 frames [] k v ts
  | broken, h, _, _ => h.elim
  | brokenObject _, h, _, _ => h.elim

/-- Behind an item the machine reads the further ones to the end of the
array. -/
theorem run_furtherItems : (vs : List Json) → ItemsLegible vs → ∀ (frames : List Frame)
    (done : List Json) (v : Json) (ts : List Token),
    Reading.run ⟨.array done.reverse :: frames, .complete v⟩
        (furtherItems vs ++ .closeBracket :: ts)
      = Reading.run ⟨frames, .complete (array (done ++ v :: vs))⟩ ts
  | [], _, frames, done, v, ts => by
      have hstep : Reading.step ⟨.array done.reverse :: frames, .complete v⟩ .closeBracket
          = some ⟨frames, .complete (.array (v :: done.reverse).reverse)⟩ := rfl
      rw [furtherItems, List.nil_append, Reading.run, hstep, List.reverse_cons,
        List.reverse_reverse]
  | w :: ws, h, frames, done, v, ts => by
      have hcomma : Reading.run ⟨.array done.reverse :: frames, .complete v⟩
            (furtherItems (w :: ws) ++ .closeBracket :: ts)
          = Reading.run ⟨.array (v :: done.reverse) :: frames, .value⟩
            (w.tokenList ++ (furtherItems ws ++ .closeBracket :: ts)) := by
        rw [furtherItems, List.append_assoc]
        rfl
      have hrest := run_furtherItems ws h.2 frames (done ++ [v]) w ts
      rw [List.reverse_append, List.append_assoc] at hrest
      rw [hcomma, run_tokenList w h.1]
      exact hrest

/-- Behind a field the machine reads the further ones to the end of the
object. -/
theorem run_furtherFields : (fs : List (String × Json)) → FieldsLegible fs →
    ∀ (frames : List Frame) (done : List (String × Json)) (k : String) (v : Json)
      (ts : List Token),
    Reading.run ⟨.object (readFields done) (some k) :: frames, .complete v⟩
        (furtherFields fs ++ .closeBrace :: ts)
      = Reading.run ⟨frames, .complete (object (done ++ (k, v) :: fs))⟩ ts
  | [], _, frames, done, k, v, ts => by
      have hstep : Reading.step ⟨.object (readFields done) (some k) :: frames, .complete v⟩
            .closeBrace
          = some ⟨frames, .complete (closeObject ((some k, v) :: readFields done))⟩ := rfl
      rw [furtherFields, List.nil_append, Reading.run, hstep, ← readFields_concat,
        closeObject_readFields]
  | (l, w) :: gs, h, frames, done, k, v, ts => by
      have hcomma : Reading.run ⟨.object (readFields done) (some k) :: frames, .complete v⟩
            (furtherFields ((l, w) :: gs) ++ .closeBrace :: ts)
          = Reading.run
            ⟨.object ((some k, v) :: readFields done) (some l) :: frames, .value⟩
            (w.tokenList ++ (furtherFields gs ++ .closeBrace :: ts)) := by
        rw [furtherFields, List.append_assoc]
        rfl
      have hrest := run_furtherFields gs h.2 frames (done ++ [(k, v)]) l w ts
      rw [readFields_concat, List.append_assoc] at hrest
      rw [hcomma, run_tokenList w h.1]
      exact hrest

end

/-- A text is read as a legible value when it is cut into the tokens of the value. -/
theorem parse_of_tokens {s : String} {v : Json} (h : v.Legible)
    (htokens : tokens s.toList = ⟨v.tokenList, true⟩) : parse s = ⟨v, true⟩ := by
  have hrun : Reading.initial.run v.tokenList = ⟨⟨[], .complete v⟩, true⟩ := by
    have hrun := run_tokenList v h [] []
    rwa [List.append_nil] at hrun
  rw [parse, htokens, Begun.andThen, Begun.andThen, hrun]
  rfl

/-- **A legible value is what its text is read as.** -/
theorem parse_pretty {v : Json} (h : v.Legible) : parse v.pretty = ⟨v, true⟩ :=
  parse_of_tokens h (tokens_pretty h)

end ApiBaseline.Json
