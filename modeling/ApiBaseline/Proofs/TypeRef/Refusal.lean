import ApiBaseline.Proofs.TypeRef.Offset
import ApiBaseline.Proofs.TypeRef.RoundTrip

/-!
# Where reading stops

A text that is not read as a reference is refused at a place. What stands in
front of that place can be completed to a reference, since from every state of
the reading machine a few tokens lead to its end (`reads_closing`). With the
character at the place nothing can: the token that begins there is refused
whatever it is beyond its first character (`step_eq_error_of_beginsWith`).

In front of a blank of several bytes the text is read like any other. The blank
itself is reached when nothing in front of it is refused, and then the cursor
comes to stand inside it.
-/

namespace ApiBaseline.TypeRef

open Text (byteLength)

/-! ## Refused tokens -/

/-- The machine refuses one token, behind others that it reads. -/
theorem run_eq_error {ts : List (Nat × Token)} {r : Reading} {reason : Reason} {offset : Nat}
    (h : r.run ts = .error (reason, offset)) :
    ∃ before t after r', ts = before ++ (offset, t) :: after
      ∧ Reads r (before.map (·.2)) r' ∧ r'.step t = .error reason := by
  induction ts generalizing r with
  | nil => cases h
  | cons first ts ih =>
      obtain ⟨o, t⟩ := first
      rw [Reading.run] at h
      cases hstep : r.step t with
      | error why =>
          rw [hstep] at h
          obtain ⟨rfl, rfl⟩ := Prod.mk.inj (Except.error.inj h)
          exact ⟨[], t, ts, r, rfl, Reads.nil r, hstep⟩
      | ok next =>
          rw [hstep] at h
          obtain ⟨before, u, after, r', rfl, hreads, hu⟩ := ih h
          exact ⟨(o, t) :: before, u, after, r', rfl, Reads.cons hstep hreads, hu⟩

theorem step_name_eq_error {r : Reading} {text : String} {reason : Reason}
    (h : r.step (.name text) = .error reason) (other : String) :
    r.step (.name other) = .error reason := by
  obtain ⟨frames, focus⟩ := r
  cases focus with
  | start => cases h
  | marked => cases h
  | named name => cases frames <;> exact h
  | complete t => cases frames <;> exact h
  | brackets element rank => exact h

/-- Tokens that begin alike are refused alike. -/
theorem step_eq_error_of_beginsWith {r : Reading} {t u : Token} {c : Char} {reason : Reason}
    (ht : t.BeginsWith c) (hu : u.BeginsWith c) (h : r.step t = .error reason) :
    r.step u = .error reason := by
  have hclash : ∀ {v : Token}, Token.delimiter? c = some v → isNameChar c = true → False := by
    intro v hv hc
    rw [isNameChar_eq_false_iff.mpr (Or.inr ⟨v, hv⟩)] at hc
    cases hc
  rcases ht with hdt | ⟨hname, text, rfl⟩
  · rcases hu with hdu | ⟨hname, -⟩
    · obtain rfl := Option.some.inj (hdt.symm.trans hdu)
      exact h
    · exact (hclash hdt hname).elim
  · rcases hu with hdu | ⟨-, other, rfl⟩
    · exact (hclash hdu hname).elim
    · exact step_name_eq_error h other

/-- Behind what has been read, with the first character of a refused token, no
text can be read. -/
theorem not_reads_of_refused {front : List Char} {c : Char} {r : Reading} {t : Token}
    {reason : Reason} (hreads : Reads Reading.initial (lexemes front) r)
    (hparted : Parted front [c]) (ht : t.BeginsWith c) (hrefused : r.step t = .error reason)
    (more : List Char) (r' : Reading) :
    ¬ Reads Reading.initial (lexemes (front ++ c :: more)) r' := by
  intro hall
  obtain ⟨u, rest, hlex, hu⟩ := ht.exists_lexeme more
  have hmore : Parted front (c :: more) := hparted
  have hcut : lexemes (front ++ c :: more) = lexemes front ++ u :: rest := by
    rw [lexemes_append hmore, hlex]
  rw [hcut, Reads, List.foldlM_append, hreads] at hall
  obtain ⟨next, hnext, -⟩ := reads_cons_iff.mp hall
  rw [step_eq_error_of_beginsWith ht hu hrefused] at hnext
  cases hnext

/-! ## Completions -/

/-- Characters that complete what is under way. -/
def Focus.closing : Focus → List Char
  | .start | .marked => "T".toList
  | .named _ | .complete _ => []
  | .brackets .. => [']']

/-- Characters that complete a reading: what is under way, then the open
argument lists. -/
def Reading.closing (r : Reading) : List Char :=
  r.focus.closing ++ List.replicate r.frames.length '>'

/-- The type that is in focus, if it is whole. -/
def Focus.type? : Focus → Option TypeRef
  | .named name => some (.named name [])
  | .complete t => some t
  | _ => none

theorem finish_of_type? {focus : Focus} {t : TypeRef} (h : focus.type? = some t) :
    Reading.finish ⟨[], focus⟩ = .ok t := by
  cases focus <;> cases h <;> rfl

theorem step_greater {focus : Focus} {t : TypeRef} (h : focus.type? = some t) (f : Frame)
    (fs : List Frame) : Reading.step ⟨f :: fs, focus⟩ .greater
      = .ok ⟨fs, .complete (.named f.name (f.args ++ [t]))⟩ := by
  cases focus <;> cases h <;> rfl

theorem reads_closingBrackets (frames : List Frame) {focus : Focus} {t : TypeRef}
    (h : focus.type? = some t) :
    ∃ focus' u, Reads ⟨frames, focus⟩ (List.replicate frames.length .greater) ⟨[], focus'⟩
      ∧ focus'.type? = some u := by
  induction frames generalizing focus t with
  | nil => exact ⟨focus, t, Reads.nil _, h⟩
  | cons f fs ih =>
      have houter : Focus.type? (.complete (.named f.name (f.args ++ [t]))) = some _ := rfl
      obtain ⟨focus', u, hreads, hu⟩ := ih houter
      exact ⟨focus', u, Reads.cons (step_greater h f fs) hreads, hu⟩

theorem reads_focusClosing (frames : List Frame) (focus : Focus) :
    ∃ focus' t, Reads ⟨frames, focus⟩ (lexemes focus.closing) ⟨frames, focus'⟩
      ∧ focus'.type? = some t := by
  have hname : lexemes "T".toList = [.name "T"] := by
    have hlex := lexemes_isName (s := "T") rfl endsName_nil
    rwa [List.append_nil, lexemes_nil] at hlex
  cases focus with
  | start =>
      rw [Focus.closing, hname]
      exact ⟨.named "T", _, Reads.cons rfl (Reads.nil _), rfl⟩
  | marked =>
      rw [Focus.closing, hname]
      exact ⟨.complete (.param "T"), _, Reads.cons rfl (Reads.nil _), rfl⟩
  | named name =>
      rw [Focus.closing, lexemes_nil]
      exact ⟨.named name, _, Reads.nil _, rfl⟩
  | complete t =>
      rw [Focus.closing, lexemes_nil]
      exact ⟨.complete t, _, Reads.nil _, rfl⟩
  | brackets element rank =>
      rw [Focus.closing, lexemes_delimiter [] rfl, lexemes_nil]
      exact ⟨.complete (.array element rank), _, Reads.cons rfl (Reads.nil _), rfl⟩

/-- From every state the machine can be led to its end. -/
theorem reads_closing (r : Reading) :
    ∃ r' t, Reads r (lexemes r.closing) r' ∧ r'.finish = .ok t := by
  obtain ⟨frames, focus⟩ := r
  obtain ⟨whole, t, hfocus, ht⟩ := reads_focusClosing frames focus
  obtain ⟨last, u, hbrackets, hu⟩ := reads_closingBrackets frames ht
  have hends : EndsName (List.replicate frames.length '>') := by
    intro c hc
    obtain rfl := List.eq_of_mem_replicate (List.mem_of_mem_head? hc)
    rfl
  have hlex : lexemes (List.replicate frames.length '>')
      = List.replicate frames.length .greater := by
    have hrow := lexemes_replicate (c := '>') rfl frames.length []
    rwa [List.append_nil, lexemes_nil, List.append_nil] at hrow
  refine ⟨⟨[], last⟩, u, ?_, finish_of_type? hu⟩
  rw [Reading.closing, lexemes_append (.of_endsName hends), hlex]
  exact hfocus.append hbrackets

theorem narrowBlanks_closing (r : Reading) : NarrowBlanks r.closing := by
  have hclosing : ∀ c ∈ r.closing, c = 'T' ∨ c = ']' ∨ c = '>' := by
    intro c hc
    rcases List.mem_append.mp hc with hc | hc
    · cases hfocus : r.focus <;> simp_all [Focus.closing]
    · exact Or.inr (Or.inr (List.eq_of_mem_replicate hc))
  intro c hc _
  rcases hclosing c hc with rfl | rfl | rfl <;> rfl

/-- What has been read can be completed, behind a space that ends its last name. -/
theorem exists_completion {front : List Char} (hfront : NarrowBlanks front) {r : Reading}
    (h : Reads Reading.initial (lexemes front) r) :
    ∃ t, parse (String.ofList (front ++ ' ' :: r.closing)) = .ok t := by
  obtain ⟨r', t, hclose, hfinish⟩ := reads_closing r
  have hspace : NarrowBlanks [' '] := by
    intro c hc _
    rw [List.mem_singleton.mp hc]
    rfl
  have hlex : lexemes (front ++ ' ' :: r.closing) = lexemes front ++ lexemes r.closing := by
    rw [lexemes_append (.of_endsName (endsName_cons rfl)), lexemes_blank _ rfl]
  refine ⟨t, parse_eq_ok_iff_reads.mpr ?_⟩
  rw [String.toList_ofList, hlex]
  -- The scanner gets to the end, since what is added has no wide blanks either.
  exact ⟨scan_finish _ (hfront.append (hspace.append (narrowBlanks_closing r))), r',
    h.append hclose, hfinish⟩

/-! ## Texts up to a place -/

theorem utf8ByteSize_ofList (cs : List Char) :
    (String.ofList cs).utf8ByteSize = byteLength cs := by
  induction cs with
  | nil => rfl
  | cons c cs ih =>
      rw [String.ofList_cons, String.utf8ByteSize_append, String.utf8ByteSize_singleton, ih]
      rfl

theorem utf8ByteSize_eq (s : String) : s.utf8ByteSize = byteLength s.toList := by
  rw [← utf8ByteSize_ofList, String.ofList_toList]

/-- A text with narrow blanks is read up to a refused token or up to its end. -/
theorem parse_of_narrow {s : String} (h : NarrowBlanks s.toList) :
    parse s = match Reading.initial.run (scan 0 none s.toList).1 with
      | .error (reason, offset) => .error (.refused s reason offset)
      | .ok r => match r.finish with
        | .ok t => .ok t
        | .error reason => .error (.refused s reason s.utf8ByteSize) := by
  have hstop : (scan 0 none s.toList).2 = .finish s.utf8ByteSize := by
    rw [scan_narrow h, utf8ByteSize_eq, Nat.zero_add]
  have htokens : tokens s = ((scan 0 none s.toList).1, .finish s.utf8ByteSize) :=
    Prod.ext rfl hstop
  simp only [parse, htokens]
  cases Reading.initial.run (scan 0 none s.toList).1 <;> rfl

/-- A text with a wide blank is read up to a refused token or up to that blank. -/
theorem parse_of_wide {s : String} {front rest : List Char} {c : Char}
    (hs : s.toList = front ++ c :: rest) (hfront : NarrowBlanks front)
    (hc : Text.isBlank c = true) (hsize : c.utf8Size ≠ 1) :
    parse s = match Reading.initial.run (scan 0 none front).1 with
      | .error (reason, offset) => .error (.refused s reason offset)
      | .ok _ => .error (.splitCharacter (byteLength front)) := by
  have htokens : tokens s = ((scan 0 none front).1, .split (byteLength front)) := by
    rw [tokens, hs, scan_wide hfront hc hsize, Nat.zero_add]
  simp only [parse, htokens]
  cases Reading.initial.run (scan 0 none front).1 <;> rfl

/-- A refused text is refused at a token, or at its end behind tokens that have
been read. -/
theorem refused_cases {s text : String} {reason : Reason} {offset : Nat}
    (h : parse s = .error (.refused text reason offset)) :
    text = s ∧ ∃ cs tail, s.toList = cs ++ tail ∧ NarrowBlanks cs
      ∧ (Reading.initial.run (scan 0 none cs).1 = .error (reason, offset)
        ∨ tail = [] ∧ offset = byteLength cs ∧ ∃ r, Reads Reading.initial (lexemes cs) r) := by
  rcases narrowBlanks_or_wide s.toList with hs | ⟨front, c, rest, hs, hfront, hc, hsize⟩
  · rw [parse_of_narrow hs] at h
    cases hrun : Reading.initial.run (scan 0 none s.toList).1 with
    | error why =>
        rw [hrun] at h
        obtain ⟨rfl, rfl, rfl⟩ := ParseError.refused.inj (Except.error.inj h)
        exact ⟨rfl, s.toList, [], (List.append_nil _).symm, hs, Or.inl hrun⟩
    | ok r =>
        simp only [hrun] at h
        cases hfinish : r.finish with
        | ok t => rw [hfinish] at h; cases h
        | error why =>
            rw [hfinish] at h
            obtain ⟨rfl, rfl, rfl⟩ := ParseError.refused.inj (Except.error.inj h)
            have hreads := (run_eq_ok_iff _).mp hrun
            rw [scan_lexemes s.toList (p := none) trivial (scan_finish _ hs)] at hreads
            exact ⟨rfl, s.toList, [], (List.append_nil _).symm, hs,
              Or.inr ⟨rfl, utf8ByteSize_eq s, r, hreads⟩⟩
  · rw [parse_of_wide hs hfront hc hsize] at h
    cases hrun : Reading.initial.run (scan 0 none front).1 with
    | ok r => rw [hrun] at h; cases h
    | error why =>
        rw [hrun] at h
        obtain ⟨rfl, rfl, rfl⟩ := ParseError.refused.inj (Except.error.inj h)
        exact ⟨rfl, front, c :: rest, hs, hfront, Or.inl hrun⟩

/-! ## The first impossible character -/

/-- The offset is a place in the text, between two characters or at its end.
What stands in front of it can be completed to a reference, but not with the
character that stands at it. -/
def IsFirstImpossible (s : String) (offset : Nat) : Prop :=
  ∃ front back : String, s = front ++ back ∧ offset = front.utf8ByteSize
    ∧ (∃ more t, parse (front ++ more) = .ok t)
    ∧ ∀ c tail, back = String.singleton c ++ tail →
        ∀ more t, parse (front ++ String.singleton c ++ more) ≠ .ok t

theorem IsFirstImpossible.completion {s : String} {offset : Nat} (h : IsFirstImpossible s offset)
    (hend : offset = s.utf8ByteSize) : ∃ more t, parse (s ++ more) = .ok t := by
  obtain ⟨front, back, rfl, hoffset, hmore, -⟩ := h
  rw [hoffset, String.utf8ByteSize_append] at hend
  obtain rfl : back = "" := String.utf8ByteSize_eq_zero_iff.mp (by omega)
  rwa [String.append_empty]

/-- A refused token stands inside the text, at the first impossible character. -/
theorem isFirstImpossible_of_run {s : String} {cs tail : List Char} (hs : s.toList = cs ++ tail)
    (hcs : NarrowBlanks cs) {reason : Reason} {offset : Nat}
    (h : Reading.initial.run (scan 0 none cs).1 = .error (reason, offset)) :
    IsFirstImpossible s offset ∧ offset < byteLength cs := by
  obtain ⟨before, t, after, r, htokens, hreads, hrefused⟩ := run_eq_error h
  obtain ⟨front, c, rest, hcut, hoffset, hbefore, hparted, ht⟩ :=
    scan_eq_append cs (Pending.spans_none 0) htokens
  obtain rfl : cs = front ++ c :: rest := hcut
  rw [hbefore] at hreads
  rw [Nat.zero_add] at hoffset
  have hfront : NarrowBlanks front := fun d hd => hcs d (List.mem_append_left _ hd)
  refine ⟨⟨String.ofList front, String.ofList (c :: rest ++ tail), ?_, ?_, ?_, ?_⟩, ?_⟩
  · rw [← String.ofList_append, ← List.append_assoc, ← hs, String.ofList_toList]
  · rw [utf8ByteSize_ofList]
    exact hoffset
  · obtain ⟨u, hu⟩ := exists_completion hfront hreads
    exact ⟨String.ofList (' ' :: r.closing), u, by rwa [← String.ofList_append]⟩
  · intro d back hback more u hu
    rw [List.cons_append, String.ofList_cons, String.singleton_append_inj] at hback
    obtain ⟨rfl, -⟩ := hback
    obtain ⟨-, r', hr', -⟩ := parse_eq_ok_iff_reads.mp hu
    refine not_reads_of_refused hreads hparted ht hrefused more.toList r' ?_
    simpa [String.toList_append, String.toList_singleton] using hr'
  · have hpos := Char.utf8Size_pos c
    rw [Text.byteLength_append, byteLength, ← hoffset]
    omega

/-- **A refusal points at the first impossible character**; at the end of the
text it says that the text lacks only a completion. -/
theorem parse_refused {s text : String} {reason : Reason} {offset : Nat}
    (h : parse s = .error (.refused text reason offset)) :
    text = s ∧ IsFirstImpossible s offset
      ∧ (offset = s.utf8ByteSize →
          (∀ t, parse s ≠ .ok t) ∧ ∃ more t, parse (s ++ more) = .ok t) := by
  obtain ⟨htext, cs, tail, hs, hcs, hplace⟩ := refused_cases h
  have hfirst : IsFirstImpossible s offset := by
    rcases hplace with hrun | ⟨rfl, hoffset, r, hreads⟩
    · exact (isFirstImpossible_of_run hs hcs hrun).1
    · rw [List.append_nil] at hs
      subst hs
      refine ⟨s, "", (String.append_empty).symm, by rw [hoffset, utf8ByteSize_eq], ?_, ?_⟩
      · obtain ⟨t, ht⟩ := exists_completion hcs hreads
        refine ⟨String.ofList (' ' :: r.closing), t, ?_⟩
        rwa [String.ofList_append, String.ofList_toList] at ht
      · intro c tail hback
        exact absurd hback.symm (by simp)
  refine ⟨htext, hfirst, fun hend => ⟨fun t ht => ?_, hfirst.completion hend⟩⟩
  rw [h] at ht
  cases ht

theorem pair_lacks_argument :
    parse "Ns.Pair<!T, >" = .error (.refused "Ns.Pair<!T, >" .typeName 12)
      ∧ IsFirstImpossible "Ns.Pair<!T, >" 12 := by
  have h : parse "Ns.Pair<!T, >" = .error (.refused "Ns.Pair<!T, >" .typeName 12) := by rfl
  exact ⟨h, (parse_refused h).2.1⟩

/-! ## Cursors inside a character -/

/-- The machine reads all tokens of a text that is a reference, or that lacks
only its end. -/
theorem run_scan_eq_ok_iff {s : String} (hs : NarrowBlanks s.toList) :
    (∃ r, Reading.initial.run (scan 0 none s.toList).1 = .ok r)
      ↔ (∃ t, parse s = .ok t)
        ∨ ∃ reason, parse s = .error (.refused s reason s.utf8ByteSize) := by
  rw [parse_of_narrow hs]
  cases hrun : Reading.initial.run (scan 0 none s.toList).1 with
  | ok r =>
      refine iff_of_true ⟨r, rfl⟩ ?_
      cases hfinish : r.finish with
      | ok t => exact Or.inl ⟨t, by simp only [hfinish]⟩
      | error reason => exact Or.inr ⟨reason, by simp only [hfinish]⟩
  | error why =>
      obtain ⟨reason, offset⟩ := why
      refine iff_of_false nofun ?_
      rintro (⟨t, ht⟩ | ⟨reason', ht⟩)
      · cases ht
      · -- The refused token stands inside the text, and not at its end.
        obtain ⟨-, -, hoffset⟩ := ParseError.refused.inj (Except.error.inj ht)
        have hinside := (isFirstImpossible_of_run (List.append_nil _).symm hs hrun).2
        rw [hoffset, utf8ByteSize_eq] at hinside
        exact Nat.lt_irrefl _ hinside

theorem parse_ne_split {s : String} (hs : NarrowBlanks s.toList) (offset : Nat) :
    parse s ≠ .error (.splitCharacter offset) := by
  intro h
  rw [parse_of_narrow hs] at h
  cases hrun : Reading.initial.run (scan 0 none s.toList).1 with
  | error why => rw [hrun] at h; cases h
  | ok r =>
      simp only [hrun] at h
      cases hfinish : r.finish <;> rw [hfinish] at h <;> cases h

/-- **A cursor comes to stand inside a character** exactly at the first blank of
several bytes, when the text in front of it is a reference or lacks only its
end. Every other text is read or refused. -/
theorem parse_splits_iff :
    (∀ (s : String) (offset : Nat), parse s = .error (.splitCharacter offset)
        ↔ ∃ (front tail : String) (c : Char), s = front ++ String.singleton c ++ tail
          ∧ NarrowBlanks front.toList ∧ Text.isBlank c = true ∧ c.utf8Size ≠ 1
          ∧ offset = front.utf8ByteSize
          ∧ ((∃ t, parse front = .ok t)
            ∨ ∃ reason, parse front = .error (.refused front reason front.utf8ByteSize)))
      ∧ (∀ s : String, (∀ offset, parse s ≠ .error (.splitCharacter offset)) →
          (∃ t, parse s = .ok t) ∨ ∃ reason offset, parse s = .error (.refused s reason offset))
      ∧ ∀ s : String, (∀ c ∈ s.toList, Text.isBlank c = true → c.utf8Size = 1) →
          ∀ offset, parse s ≠ .error (.splitCharacter offset) := by
  refine ⟨fun s offset => ⟨fun h => ?_, ?_⟩, fun s hs => ?_, fun s hs => parse_ne_split hs⟩
  · rcases narrowBlanks_or_wide s.toList with hs | ⟨front, c, rest, hs, hfront, hc, hsize⟩
    · exact absurd h (parse_ne_split hs offset)
    · have hread : NarrowBlanks (String.ofList front).toList := by rwa [String.toList_ofList]
      rw [parse_of_wide hs hfront hc hsize] at h
      cases hrun : Reading.initial.run (scan 0 none front).1 with
      | error why => rw [hrun] at h; cases h
      | ok r =>
          rw [hrun] at h
          obtain rfl := ParseError.splitCharacter.inj (Except.error.inj h)
          refine ⟨String.ofList front, String.ofList rest, c, ?_, hread, hc, hsize,
            (utf8ByteSize_ofList front).symm, (run_scan_eq_ok_iff hread).mp ⟨r, ?_⟩⟩
          · rw [String.append_assoc, ← String.ofList_cons, ← String.ofList_append, ← hs,
              String.ofList_toList]
          · rwa [String.toList_ofList]
  · rintro ⟨front, tail, c, rfl, hfront, hc, hsize, rfl, hread⟩
    obtain ⟨r, hrun⟩ := (run_scan_eq_ok_iff hfront).mpr hread
    have hs : (front ++ String.singleton c ++ tail).toList = front.toList ++ c :: tail.toList := by
      simp [String.toList_append]
    rw [parse_of_wide hs hfront hc hsize, hrun, utf8ByteSize_eq]
  · cases hparse : parse s with
    | ok t => exact Or.inl ⟨t, rfl⟩
    | error e =>
        cases e with
        | refused text reason offset =>
            obtain rfl := (refused_cases hparse).1
            exact Or.inr ⟨reason, offset, rfl⟩
        | splitCharacter offset => exact absurd hparse (hs offset)

/-- A no-break space is met behind the open list of a pair, but not behind a
list that nothing has opened. -/
theorem open_pair_splits :
    parse "Ns.Pair<\u00a0T>" = .error (.splitCharacter 8)
      ∧ ((∃ t, parse "Ns.Pair>\u00a0T>" = .ok t)
        ∨ ∃ reason offset, parse "Ns.Pair>\u00a0T>"
          = .error (.refused "Ns.Pair>\u00a0T>" reason offset))
      ∧ ∀ offset, parse "Ns.Pär<\tT>" ≠ .error (.splitCharacter offset) := by
  obtain ⟨hsplits, hreads, hnarrow⟩ := parse_splits_iff
  have hfront : NarrowBlanks "Ns.Pair<".toList := by simp [NarrowBlanks, Text.isBlank]
  have htab : NarrowBlanks "Ns.Pär<\tT>".toList := by
    simp [NarrowBlanks, Text.isBlank]
    rfl
  refine ⟨(hsplits _ _).mpr ⟨"Ns.Pair<", "T>", '\u00a0', rfl, hfront, rfl, by decide, rfl,
    Or.inr ⟨.typeName, rfl⟩⟩, hreads _ fun offset h => ?_, hnarrow _ htab⟩
  have hlist : parse "Ns.Pair>\u00a0T>" = .error (.refused "Ns.Pair>\u00a0T>" .trailing 7) := by rfl
  rw [hlist] at h
  cases h

end ApiBaseline.TypeRef
