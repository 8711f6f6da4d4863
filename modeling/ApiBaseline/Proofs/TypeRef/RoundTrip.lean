import ApiBaseline.Proofs.TypeRef.Spelling
import ApiBaseline.TypeRef.Parser

/-!
# Reading inverts writing, up to blanks

A text is read as a reference exactly when the reference is well-formed and the
text has the tokens of its display form.

Completeness follows the reference: from a place where a type may begin, the
machine reads its tokens and ends with the type in focus, whatever is open
around it (`reads_marks`). Soundness follows the machine: a state determines
the tokens that led to it (`Reading.marks`), each step adds the token that it
reads (`step_marks`), and a finished reading is the token list of its result.
-/

namespace ApiBaseline.TypeRef

/-! ## Runs without offsets -/

/-- The machine reads the tokens, one after the other. -/
def Reads (r : Reading) (ts : List Token) (r' : Reading) : Prop :=
  ts.foldlM Reading.step r = .ok r'

theorem Reads.nil (r : Reading) : Reads r [] r := rfl

theorem Reads.cons {r r' r'' : Reading} {t : Token} {ts : List Token}
    (h : r.step t = .ok r') (h' : Reads r' ts r'') : Reads r (t :: ts) r'' := by
  rw [Reads, List.foldlM_cons, h]
  exact h'

theorem Reads.append {r r' r'' : Reading} {ts us : List Token}
    (h : Reads r ts r') (h' : Reads r' us r'') : Reads r (ts ++ us) r'' := by
  rw [Reads, List.foldlM_append, h]
  exact h'

theorem reads_cons_iff {r r'' : Reading} {t : Token} {ts : List Token} :
    Reads r (t :: ts) r'' ↔ ∃ r', r.step t = .ok r' ∧ Reads r' ts r'' := by
  refine ⟨fun h => ?_, fun ⟨r', h, h'⟩ => h'.cons h⟩
  rw [Reads, List.foldlM_cons] at h
  cases hs : r.step t with
  | error reason => rw [hs] at h; cases h
  | ok r' => rw [hs] at h; exact ⟨r', rfl, h⟩

theorem run_eq_ok_iff (ts : List (Nat × Token)) {r r' : Reading} :
    r.run ts = .ok r' ↔ Reads r (ts.map (·.2)) r' := by
  induction ts generalizing r with
  | nil => simp [Reading.run, Reads, pure, Except.pure]
  | cons t ts ih =>
      rw [List.map_cons, reads_cons_iff, Reading.run]
      cases hs : r.step t.2 with
      | error reason => simp
      | ok s => simp [ih]

/-! ## Completeness: every reference is read from its tokens -/

/-- The focus behind a type: a name may still open an argument list. -/
def settled : TypeRef → Focus
  | named name [] => .named name
  | t => .complete t

/-- Behind a type every token but an opening bracket is read as one that
follows a type; a name with arguments cannot open a second list. -/
theorem step_settled (frames : List Frame) (t : TypeRef) {token : Token}
    (h : token ≠ .less) :
    Reading.step ⟨frames, settled t⟩ token = Reading.stepComplete frames t token := by
  unfold settled
  split
  · cases token <;> first | rfl | exact absurd rfl h
  · rfl

theorem finish_settled (t : TypeRef) : Reading.finish ⟨[], settled t⟩ = .ok t := by
  unfold settled
  split <;> rfl

theorem reads_commas (frames : List Frame) (element : TypeRef) (n rank : Nat) :
    Reads ⟨frames, .brackets element rank⟩ (List.replicate n .comma)
      ⟨frames, .brackets element (rank + n)⟩ := by
  induction n generalizing rank with
  | zero => exact Reads.nil _
  | succ n ih =>
      have hstep : Reading.step ⟨frames, .brackets element rank⟩ .comma
          = .ok ⟨frames, .brackets element (rank + 1)⟩ := rfl
      rw [show rank + (n + 1) = rank + 1 + n by omega]
      exact Reads.cons hstep (ih (rank + 1))

mutual

/-- Where a type may begin, the machine reads the tokens of a reference and has
it in focus then. -/
theorem reads_marks : (t : TypeRef) → t.isWellFormed = true → ∀ (frames : List Frame),
    Reads ⟨frames, .start⟩ t.marks ⟨frames, settled t⟩
  | named name [], _, frames => Reads.cons rfl (Reads.nil _)
  | named name (t :: ts), h, frames => by
      simp only [isWellFormed, areWellFormed, Bool.and_eq_true] at h
      obtain ⟨-, ht, hts⟩ := h
      have hopen : Reads ⟨frames, .start⟩ [.name name, .less] ⟨⟨name, []⟩ :: frames, .start⟩ :=
        Reads.cons rfl (Reads.cons rfl (Reads.nil _))
      have harg := hopen.append (reads_marks t ht (⟨name, []⟩ :: frames))
      simpa [marks, argumentMarks, settled] using
        harg.append (reads_further ts hts frames name [] t)
  | param name, _, frames => Reads.cons rfl (Reads.cons rfl (Reads.nil _))
  | array element rank, h, frames => by
      simp only [isWellFormed, Bool.and_eq_true, decide_eq_true_eq] at h
      have hopen : Reading.step ⟨frames, settled element⟩ .openBracket
          = .ok ⟨frames, .brackets element 1⟩ := step_settled frames element nofun
      have hrank : Reads ⟨frames, .brackets element 1⟩ (List.replicate (rank - 1) .comma)
          ⟨frames, .brackets element rank⟩ := by
        have hcommas := reads_commas frames element (rank - 1) 1
        rwa [show 1 + (rank - 1) = rank by omega] at hcommas
      have hclose : Reads ⟨frames, .brackets element rank⟩ [.closeBracket]
          ⟨frames, settled (array element rank)⟩ := Reads.cons rfl (Reads.nil _)
      simpa [marks] using
        (reads_marks element h.1 frames).append (Reads.cons hopen (hrank.append hclose))
  | byRef target, h, frames =>
      (reads_marks target h frames).append
        (Reads.cons (step_settled frames target nofun) (Reads.nil _))
  | pointer target, h, frames =>
      (reads_marks target h frames).append
        (Reads.cons (step_settled frames target nofun) (Reads.nil _))

/-- Behind an argument the machine reads the further ones and the closing
bracket, and has the whole type in focus then. -/
theorem reads_further : (ts : List TypeRef) → areWellFormed ts = true →
    ∀ (frames : List Frame) (name : String) (done : List TypeRef) (t : TypeRef),
    Reads ⟨⟨name, done⟩ :: frames, settled t⟩ (furtherMarks ts ++ [.greater])
      ⟨frames, .complete (named name (done ++ t :: ts))⟩
  | [], _, frames, name, done, t => Reads.cons (step_settled _ t nofun) (Reads.nil _)
  | u :: us, h, frames, name, done, t => by
      simp only [areWellFormed, Bool.and_eq_true] at h
      have hcomma : Reading.step ⟨⟨name, done⟩ :: frames, settled t⟩ .comma
          = .ok ⟨⟨name, done ++ [t]⟩ :: frames, .start⟩ := step_settled _ t nofun
      have harg := reads_marks u h.1 (⟨name, done ++ [t]⟩ :: frames)
      have hrest := reads_further us h.2 frames name (done ++ [t]) u
      rw [List.append_assoc] at hrest
      simpa [furtherMarks] using Reads.cons hcomma (harg.append hrest)

end

/-! ## Soundness: a state tells what has been read -/

/-- The tokens that led to an open argument list. -/
def Frame.marks (f : Frame) : List Token :=
  .name f.name :: .less :: f.args.flatMap fun t => t.marks ++ [.comma]

def Focus.marks : Focus → List Token
  | .start => []
  | .marked => [.bang]
  | .named name => [.name name]
  | .complete t => t.marks
  | .brackets element rank =>
    element.marks ++ .openBracket :: List.replicate (rank - 1) .comma

/-- The tokens that led to open argument lists, innermost first. -/
def framesMarks : List Frame → List Token
  | [] => []
  | f :: fs => framesMarks fs ++ f.marks

def Reading.marks (r : Reading) : List Token := framesMarks r.frames ++ r.focus.marks

def Focus.isWellFormed : Focus → Bool
  | .start | .marked => true
  | .named name => isName name
  | .complete t => t.isWellFormed
  | .brackets element rank => element.isWellFormed && decide (1 ≤ rank)

/-- What has been read of an open argument list is well-formed. -/
def Frame.isWellFormed (f : Frame) : Bool := isName f.name && areWellFormed f.args

/-- What has been read is well-formed. -/
def Reading.isWellFormed (r : Reading) : Bool :=
  r.frames.all (·.isWellFormed) && r.focus.isWellFormed

theorem all_wellFormed_cons {f : Frame} {fs : List Frame} :
    (f :: fs).all (·.isWellFormed) = true
      ↔ (isName f.name = true ∧ areWellFormed f.args = true)
        ∧ fs.all (·.isWellFormed) = true := by
  rw [List.all_cons, Frame.isWellFormed, Bool.and_eq_true, Bool.and_eq_true]

/-- A type that takes one token more: the step behind it adds that token. -/
theorem stepComplete_marks {frames : List Frame} {t : TypeRef} {token : Token}
    {r : Reading} (hfs : frames.all (·.isWellFormed) = true) (ht : t.isWellFormed = true)
    (h : Reading.stepComplete frames t token = .ok r) :
    r.isWellFormed = true ∧ r.marks = framesMarks frames ++ t.marks ++ [token] := by
  -- A suffix stays with the type; a comma or a closing bracket moves it into the list
  -- around it, and the token with it.
  cases token with
  | openBracket =>
      obtain rfl := Except.ok.inj h
      exact ⟨by simp [Reading.isWellFormed, Focus.isWellFormed, hfs, ht],
        by simp [Reading.marks, Focus.marks]⟩
  | ampersand =>
      obtain rfl := Except.ok.inj h
      exact ⟨by simp [Reading.isWellFormed, Focus.isWellFormed, TypeRef.isWellFormed, hfs, ht],
        by simp [Reading.marks, Focus.marks, TypeRef.marks]⟩
  | star =>
      obtain rfl := Except.ok.inj h
      exact ⟨by simp [Reading.isWellFormed, Focus.isWellFormed, TypeRef.isWellFormed, hfs, ht],
        by simp [Reading.marks, Focus.marks, TypeRef.marks]⟩
  | comma =>
      cases frames with
      | nil => cases h
      | cons f fs =>
          obtain rfl := Except.ok.inj h
          obtain ⟨⟨hname, hargs⟩, hfs'⟩ := all_wellFormed_cons.mp hfs
          have hargs' : areWellFormed (f.args ++ [t]) = true := by
            rw [areWellFormed_append, hargs, areWellFormed, ht]; rfl
          have hall : ({ f with args := f.args ++ [t] } :: fs).all (·.isWellFormed) = true :=
            all_wellFormed_cons.mpr ⟨⟨hname, hargs'⟩, hfs'⟩
          exact ⟨by rw [Reading.isWellFormed, hall]; rfl,
            by simp [Reading.marks, framesMarks, Frame.marks, Focus.marks]⟩
  | greater =>
      cases frames with
      | nil => cases h
      | cons f fs =>
          obtain rfl := Except.ok.inj h
          obtain ⟨⟨hname, hargs⟩, hfs'⟩ := all_wellFormed_cons.mp hfs
          exact ⟨by simp [Reading.isWellFormed, Focus.isWellFormed, TypeRef.isWellFormed,
              areWellFormed_append, areWellFormed, hname, hargs, hfs', ht],
            by simp [Reading.marks, framesMarks, Frame.marks, Focus.marks, TypeRef.marks,
              argumentMarks_concat]⟩
  | less => cases frames <;> cases h
  | closeBracket => cases frames <;> cases h
  | bang => cases frames <;> cases h
  | name text => cases frames <;> cases h

/-- A step keeps what has been read well-formed and adds the token that it
reads. -/
theorem step_marks {r r' : Reading} {token : Token} (hr : r.isWellFormed = true)
    (htoken : token.isWritten = true) (h : r.step token = .ok r') :
    r'.isWellFormed = true ∧ r'.marks = r.marks ++ [token] := by
  obtain ⟨frames, focus⟩ := r
  simp only [Reading.isWellFormed, Bool.and_eq_true] at hr
  obtain ⟨hfs, hfocus⟩ := hr
  cases focus with
  | start =>
      cases token <;> cases h
      · exact ⟨by simp [Reading.isWellFormed, Focus.isWellFormed, hfs],
          by simp [Reading.marks, Focus.marks]⟩
      · have hname : isName _ = true := htoken
        exact ⟨by simp [Reading.isWellFormed, Focus.isWellFormed, hfs, hname],
          by simp [Reading.marks, Focus.marks]⟩
  | marked =>
      cases token <;> cases h
      have hname : isName _ = true := htoken
      exact ⟨by simp [Reading.isWellFormed, Focus.isWellFormed, TypeRef.isWellFormed, hfs,
          hname],
        by simp [Reading.marks, Focus.marks, TypeRef.marks]⟩
  | named name =>
      have hname : isName name = true := hfocus
      by_cases hless : token = .less
      · subst hless
        obtain rfl := Except.ok.inj h
        have hall : (⟨name, []⟩ :: frames).all (·.isWellFormed) = true :=
          all_wellFormed_cons.mpr ⟨⟨hname, rfl⟩, hfs⟩
        exact ⟨by rw [Reading.isWellFormed, hall]; rfl,
          by simp [Reading.marks, framesMarks, Frame.marks, Focus.marks]⟩
      · have ht : (TypeRef.named name []).isWellFormed = true := by
          simp [TypeRef.isWellFormed, areWellFormed, hname]
        exact stepComplete_marks hfs ht ((step_settled frames (.named name []) hless) ▸ h)
  | complete t => exact stepComplete_marks hfs hfocus h
  | brackets element rank =>
      simp only [Focus.isWellFormed, Bool.and_eq_true, decide_eq_true_eq] at hfocus
      obtain ⟨helement, hrank⟩ := hfocus
      cases token <;> cases h
      · refine ⟨by simp [Reading.isWellFormed, Focus.isWellFormed, hfs, helement], ?_⟩
        have hcommas : List.replicate rank Token.comma
            = List.replicate (rank - 1) .comma ++ [.comma] := by
          rw [← List.replicate_succ', show rank - 1 + 1 = rank by omega]
        simp [Reading.marks, Focus.marks, hcommas]
      · exact ⟨by simp [Reading.isWellFormed, Focus.isWellFormed, TypeRef.isWellFormed, hfs,
            helement, hrank],
          by simp [Reading.marks, Focus.marks, TypeRef.marks]⟩

theorem Reads.marks {ts : List Token} {r r' : Reading} (h : Reads r ts r')
    (hr : r.isWellFormed = true) (hts : ∀ t ∈ ts, t.isWritten = true) :
    r'.isWellFormed = true ∧ r'.marks = r.marks ++ ts := by
  induction ts generalizing r with
  | nil =>
      obtain rfl := Except.ok.inj h
      exact ⟨hr, (List.append_nil _).symm⟩
  | cons t ts ih =>
      obtain ⟨s, hs, hrest⟩ := reads_cons_iff.mp h
      obtain ⟨hswf, hsmarks⟩ := step_marks hr (hts t List.mem_cons_self) hs
      obtain ⟨hwf, hmarks⟩ := ih hrest hswf fun u hu => hts u (List.mem_cons_of_mem _ hu)
      exact ⟨hwf, by rw [hmarks, hsmarks, List.append_assoc]; rfl⟩

/-- A finished reading has read the tokens of its result. -/
theorem finish_marks {r : Reading} {t : TypeRef} (hr : r.isWellFormed = true)
    (h : r.finish = .ok t) : t.isWellFormed = true ∧ t.marks = r.marks := by
  obtain ⟨frames, focus⟩ := r
  simp only [Reading.isWellFormed, Bool.and_eq_true] at hr
  cases focus with
  | start => cases h
  | marked => cases h
  | brackets element rank => cases h
  | named name =>
      cases frames with
      | cons f fs => cases h
      | nil =>
          obtain rfl := Except.ok.inj h
          have hname : isName name = true := hr.2
          exact ⟨by simp [TypeRef.isWellFormed, areWellFormed, hname], rfl⟩
  | complete type =>
      cases frames with
      | cons f fs => cases h
      | nil =>
          obtain rfl := Except.ok.inj h
          exact ⟨hr.2, rfl⟩

/-! ## Texts -/

/-- A text has been read when the scanner came to its end and the machine
finishes behind its tokens. -/
theorem parse_eq_ok_iff_reads {s : String} {t : TypeRef} :
    parse s = .ok t ↔ (scan 0 none s.toList).2.isFinish = true
      ∧ ∃ r, Reads Reading.initial (lexemes s.toList) r ∧ r.finish = .ok t := by
  have hlex : (scan 0 none s.toList).2.isFinish = true →
      (tokens s).1.map (·.2) = lexemes s.toList := scan_lexemes s.toList (p := none) trivial
  simp only [parse]
  cases hstop : (tokens s).2 with
  | split offset =>
      have hfin : (scan 0 none s.toList).2.isFinish = false := by
        show (tokens s).2.isFinish = false
        rw [hstop]; rfl
      cases Reading.initial.run (tokens s).1 <;> simp [hfin]
  | finish offset =>
      have hfin : (scan 0 none s.toList).2.isFinish = true := by
        show (tokens s).2.isFinish = true
        rw [hstop]; rfl
      cases hrun : Reading.initial.run (tokens s).1 with
      | error e =>
          have hno : ∀ r, ¬ Reads Reading.initial (lexemes s.toList) r := fun r hr => by
            rw [← hlex hfin, ← run_eq_ok_iff, hrun] at hr
            cases hr
          simp [hno]
      | ok r =>
          have hr := (run_eq_ok_iff _).mp hrun
          rw [hlex hfin] at hr
          have huniq : ∀ r', Reads Reading.initial (lexemes s.toList) r' → r' = r :=
            fun r' hr' => Except.ok.inj (hr'.symm.trans hr)
          constructor
          · intro h
            refine ⟨hfin, r, hr, ?_⟩
            cases hf : r.finish with
            | error reason => simp [hf] at h
            | ok u => simpa [hf] using h
          · rintro ⟨-, r', hr', hf⟩
            obtain rfl := huniq r' hr'
            simp [hf]

/-- What is read is well-formed, and the text has its tokens. -/
theorem parse_sound {s : String} {t : TypeRef} (h : parse s = .ok t) :
    t.isWellFormed = true ∧ lexemes s.toList = t.marks := by
  obtain ⟨-, r, hr, hf⟩ := parse_eq_ok_iff_reads.mp h
  obtain ⟨hwf, hmarks⟩ := hr.marks rfl (lexemes_isWritten s.toList)
  obtain ⟨ht, htmarks⟩ := finish_marks hwf hf
  exact ⟨ht, by rw [htmarks, hmarks]; rfl⟩

/-- A text with the tokens of a well-formed reference is read as it, unless the
scanner stops in it. -/
theorem parse_complete {s : String} {t : TypeRef} (ht : t.isWellFormed = true)
    (hs : lexemes s.toList = t.marks)
    (hfin : (scan 0 none s.toList).2.isFinish = true) : parse s = .ok t :=
  parse_eq_ok_iff_reads.mpr
    ⟨hfin, ⟨[], settled t⟩, hs ▸ reads_marks t ht [], finish_settled t⟩

/-- The scanner never stops in a display form: its only blanks are spaces. -/
theorem scan_display {t : TypeRef} (h : t.isWellFormed = true) :
    (scan 0 none t.display.toList).2.isFinish = true :=
  scan_finish _ fun c hc hb => by rw [spacesOnly_spell t h c hc hb]; rfl

theorem parse_display {t : TypeRef} (h : t.isWellFormed = true) : parse t.display = .ok t :=
  parse_complete h (lexemes_display h) (scan_display h)

/-- **A text is read as a reference exactly when it has its tokens.** The
display form of a well-formed reference is one such text, so every reference
that is read can be written and read again. -/
theorem parse_eq_ok_iff_lexemes :
    (∀ (s : String) (t : TypeRef),
      (∀ c ∈ s.toList, Text.isBlank c = true → c.utf8Size = 1) →
        (parse s = .ok t
          ↔ t.isWellFormed = true ∧ lexemes s.toList = lexemes t.display.toList))
      ∧ (∀ t : TypeRef, parse t.display = .ok t ↔ t.isWellFormed = true)
      ∧ ∀ (s : String) (t : TypeRef), parse s = .ok t → parse t.display = .ok t := by
  have hdisplay : ∀ t : TypeRef, t.isWellFormed = true → parse t.display = .ok t :=
    fun t ht => parse_complete ht (lexemes_display ht) (scan_display ht)
  refine ⟨fun s t hs => ⟨fun h => ?_, fun ⟨ht, hlex⟩ => ?_⟩, fun t => ⟨fun h => ?_, hdisplay t⟩,
    fun s t h => hdisplay t (parse_sound h).1⟩
  · obtain ⟨ht, hlex⟩ := parse_sound h
    exact ⟨ht, by rw [hlex, lexemes_display ht]⟩
  · rw [lexemes_display ht] at hlex
    exact parse_complete ht hlex (scan_finish _ hs)
  · exact (parse_sound h).1

/-- Blanks stand around and inside the brackets of a reference that has every
kind of part but a pointer. -/
theorem parse_pair_with_blanks :
    (∀ c ∈ " Ns.Pair <!T,\tSystem.Int32 [ , ]&> ".toList,
        Text.isBlank c = true → c.utf8Size = 1)
      ∧ parse " Ns.Pair <!T,\tSystem.Int32 [ , ]&> "
        = .ok (.named "Ns.Pair" [.param "T", .byRef (.array (.named "System.Int32" []) 2)]) := by
  have hblanks : ∀ c ∈ " Ns.Pair <!T,\tSystem.Int32 [ , ]&> ".toList,
      Text.isBlank c = true → c.utf8Size = 1 := by
    have hall : " Ns.Pair <!T,\tSystem.Int32 [ , ]&> ".toList.all
        (fun c => !Text.isBlank c || c.utf8Size == 1) = true := by decide
    intro c hc hb
    simpa [hb] using List.all_eq_true.mp hall c hc
  exact ⟨hblanks, (parse_eq_ok_iff_lexemes.1 _ _ hblanks).mpr
    ⟨by decide, by decide +kernel⟩⟩

end ApiBaseline.TypeRef
