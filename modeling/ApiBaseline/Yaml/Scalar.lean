import ApiBaseline.Yaml.Cursor

/-!
# The text of a scalar

A scalar is written plainly, in quotes, or as a block below its header. Plain
and quoted scalars may go over several lines: the end of a line with the
blanks around it then stands for one blank, and `n` further ends of line for
as many. Blocks keep their lines, or fold them in the same way.

Loops are bounded by a number of steps that is at least the length of the
text. A scalar that breaks the rules has no text.
-/

namespace ApiBaseline.Yaml

/-! ## Gaps between words -/

/-- Blanks and ends of line between two words of a scalar. -/
structure Gap where
  /-- The blanks, as long as there is no end of line. -/
  blanks : List Char
  /-- There is an end of line. -/
  isBroken : Bool
  /-- The first end of line, unless it is escaped. -/
  first : List Char
  /-- Further ends of line. -/
  further : List Char

namespace Gap

def none : Gap := ⟨[], false, [], []⟩

/-- The gap that an escaped end of line begins. -/
def escaped : Gap := ⟨[], true, [], []⟩

/-- What ends of line stand for when they are folded. -/
def fold (first further : List Char) : List Char :=
  if first = ['\n'] then (if further.isEmpty then [' '] else further)
  else first ++ further

def text (g : Gap) : List Char := if g.isBroken then fold g.first g.further else g.blanks

/-- The gap with one more blank; on a new line blanks do not count. -/
def addBlank (g : Gap) (c : Char) : Gap :=
  if g.isBroken then g else { g with blanks := g.blanks ++ [c] }

/-- The gap with one more end of line. -/
def addBreak (g : Gap) (cs : List Char) : Gap :=
  if g.isBroken then { g with further := g.further ++ cs }
  else ⟨[], true, cs, []⟩

end Gap

/-- The gap from the cursor on. On new lines a tab must not stand before the
column `indent`. -/
def takeGap (indent : Int) : (steps : Nat) → Gap → Cursor → Option (Gap × Cursor)
  | 0, _, _ => none
  | steps + 1, g, c =>
    match c.rest with
    | [] => some (g, c)
    | ch :: _ =>
      if isBlank ch then
        if g.isBroken && c.column < indent && ch == '\t' then none
        else takeGap indent steps (g.addBlank ch) (c.skip 1)
      else if isBreak ch then
        let (cs, c') := c.takeBreak
        takeGap indent steps (g.addBreak cs) c'
      else some (g, c)

/-! ## Plain scalars -/

/-- A character that ends a plain scalar inside brackets. -/
def isFlowEnd (c : Char) : Bool :=
  c == ',' || c == '[' || c == ']' || c == '\x7b' || c == '\x7d'

/-- The word of a plain scalar that a text begins with. A colon before a blank
ends it; inside brackets a colon must not stand before an indicator. -/
def plainWord? (inFlow : Bool) : List Char → Option (List Char)
  | [] => some []
  | c :: cs =>
    if isBlank c || isBreak c then some []
    else if inFlow && c == ':' && startsWith (fun d => isFlowEnd d || d == '?') cs then none
    else if c == ':' && startsBlank cs || inFlow && isFlowEnd c then some []
    else (plainWord? inFlow cs).map (c :: ·)

/-- A plain scalar that has been read. -/
structure PlainScalar where
  text : List Char
  /-- Ends of line behind it have been read, too. -/
  isBroken : Bool
  cursor : Cursor

/-- The plain scalar from the cursor on. Outside of brackets its further lines
have at least the column `indent`. -/
def takePlain (inFlow : Bool) (indent : Int) (limit : Nat) :
    (steps : Nat) → (text : List Char) → Gap → Cursor → Option PlainScalar
  | 0, _, _, _ => none
  | steps + 1, text, g, c =>
    if c.atDocumentMark || startsWith (· == '#') c.rest then some ⟨text, g.isBroken, c⟩
    else do
      let word ← plainWord? inFlow c.rest
      let c' := c.skip word.length
      let (text', g') :=
        if word.isEmpty then (text, g) else (text ++ g.text ++ word, Gap.none)
      if !startsWith (fun d => isBlank d || isBreak d) c'.rest then
        return ⟨text', g'.isBroken, c'⟩
      let (gap, c'') ← takeGap indent limit Gap.none c'
      if !inFlow && c''.column < indent then return ⟨text', gap.isBroken, c''⟩
      takePlain inFlow indent limit steps text' gap c''

/-! ## Quoted scalars -/

/-- What an escape of one character stands for. -/
def escapeValue? (c : Char) : Option Nat :=
  match c with
  | '0' => some 0x00
  | 'a' => some 0x07
  | 'b' => some 0x08
  | 't' | '\t' => some 0x09
  | 'n' => some 0x0a
  | 'v' => some 0x0b
  | 'f' => some 0x0c
  | 'r' => some 0x0d
  | 'e' => some 0x1b
  | ' ' | '"' | '/' | '\\' => some c.toNat
  | 'N' => some 0x85
  | '_' => some 0xa0
  | 'L' => some 0x2028
  | 'P' => some 0x2029
  | _ => none

/-- How many hexadecimal digits an escape has. -/
def escapeLength? (c : Char) : Option Nat :=
  match c with
  | 'x' => some 2
  | 'u' => some 4
  | 'U' => some 8
  | _ => none

/-- The number that hexadecimal digits make up. -/
def hexNumber? (cs : List Char) : Option Nat :=
  cs.foldlM (fun n c => (hexValue? c).map (16 * n + ·)) 0

/-- A code point that is a character. -/
def characterOf? (n : Nat) : Option Char :=
  if n.isValidChar then some (Char.ofNat n) else none

/-- The escaped character behind a backslash, and how many characters its
escape has. -/
def escaped? : List Char → Option (Char × Nat)
  | [] => none
  | c :: cs =>
    match escapeLength? c with
    | some n =>
      let digits := cs.take n
      if digits.length < n then none
      else do
        let code ← hexNumber? digits
        let ch ← characterOf? code
        return (ch, n + 1)
    | none => do
      let code ← escapeValue? c
      return (Char.ofNat code, 1)

/-- Where a word of a quoted scalar ends. -/
structure QuotedWord where
  text : List Char
  /-- The word ends with a backslash before the end of a line. -/
  isEscaped : Bool
  cursor : Cursor

def takeSingleWord : (steps : Nat) → (done : List Char) → Cursor → Option QuotedWord
  | 0, _, _ => none
  | steps + 1, done, c =>
    match c.rest with
    | '\'' :: '\'' :: _ => takeSingleWord steps ('\'' :: done) (c.skip 2)
    | ch :: _ =>
      if isBlank ch || isBreak ch || ch == '\'' then some ⟨done.reverse, false, c⟩
      else takeSingleWord steps (ch :: done) (c.skip 1)
    | [] => some ⟨done.reverse, false, c⟩

def takeDoubleWord : (steps : Nat) → (done : List Char) → Cursor → Option QuotedWord
  | 0, _, _ => none
  | steps + 1, done, c =>
    match c.rest with
    | [] => some ⟨done.reverse, false, c⟩
    | '\\' :: rest =>
      if startsWith isBreak rest then some ⟨done.reverse, true, (c.skip 1).skipBreak⟩
      else do
        let (ch, n) ← escaped? rest
        takeDoubleWord steps (ch :: done) (c.skip (n + 1))
    | ch :: _ =>
      if isBlank ch || isBreak ch || ch == '"' then some ⟨done.reverse, false, c⟩
      else takeDoubleWord steps (ch :: done) (c.skip 1)

/-- The quoted scalar from behind the opening quote on, and the place behind
the closing one. No line in it may look like the mark of a document. -/
def takeQuoted (isSingle : Bool) (limit : Nat) :
    (steps : Nat) → (text : List Char) → Cursor → Option (List Char × Cursor)
  | 0, _, _ => none
  | steps + 1, text, c =>
    if c.atDocumentMark || c.rest.isEmpty then none
    else do
      let word ← if isSingle then takeSingleWord limit [] c else takeDoubleWord limit [] c
      let text' := text ++ word.text
      let quote := if isSingle then '\'' else '"'
      if startsWith (· == quote) word.cursor.rest then
        return (text', word.cursor.skip 1)
      let begun := if word.isEscaped then Gap.escaped else Gap.none
      let (gap, c') ← takeGap 0 limit begun word.cursor
      takeQuoted isSingle limit steps (text' ++ gap.text) c'

/-! ## Block scalars -/

/-- What becomes of the ends of line at the end of a block. -/
inductive Chomping where
  /-- All are dropped. -/
  | strip
  /-- The last line keeps its end. -/
  | clip
  /-- All are kept. -/
  | keep

/-- The header of a block: its chomping, and its indentation if it is given. -/
structure BlockHeader where
  chomping : Chomping
  indentation? : Option Nat

def chomping? (c : Char) : Option Chomping :=
  if c = '+' then some .keep else if c = '-' then some .strip else none

/-- The chomping of a header, if it is given there. -/
def takeChomping (c : Cursor) : Option Chomping × Cursor :=
  match c.rest.head?.bind chomping? with
  | some chomping => (some chomping, c.skip 1)
  | none => (none, c)

/-- The indentation of a header, if it is given there. It is not zero. -/
def takeIndentation? (c : Cursor) : Option (Option Nat × Cursor) :=
  match c.rest with
  | ch :: _ =>
    if ch.isDigit then
      if ch = '0' then none else some (some (ch.toNat - '0'.toNat), c.skip 1)
    else some (none, c)
  | [] => some (none, c)

/-- The header of a block. Its two parts may stand in either order. -/
def takeHeader? (c : Cursor) : Option (BlockHeader × Cursor) := do
  match takeChomping c with
  | (some chomping, c) =>
    let (indentation, c) ← takeIndentation? c
    return (⟨chomping, indentation⟩, c)
  | (none, c) =>
    let (indentation, c) ← takeIndentation? c
    if indentation.isSome then
      let (chomping, c) := takeChomping c
      return (⟨chomping.getD .clip, indentation⟩, c)
    return (⟨.clip, none⟩, c)

/-- Empty lines and the indentation of the next line of a block: the ends of
line, the greatest column that was reached, and the place of the next line. -/
def takeEmptyLines (indent? : Option Nat) :
    (steps : Nat) → (breaks : List Char) → (deepest : Nat) → Cursor →
      Option (List Char × Nat × Cursor)
  | 0, _, _, _ => none
  | steps + 1, breaks, deepest, c =>
    let blanks := (c.rest.takeWhile (· == ' ')).length
    let c := c.skip (match indent? with
      | some indent => min blanks (indent - c.column)
      | none => blanks)
    let deepest := max deepest c.column
    let inIndentation := match indent? with
      | some indent => c.column < indent
      | none => true
    if inIndentation && startsWith (· == '\t') c.rest then none
    else if startsWith isBreak c.rest then
      let (cs, c') := c.takeBreak
      takeEmptyLines indent? steps (breaks ++ cs) deepest c'
    else some (breaks, deepest, c)

/-- The lines of a block that have been read. -/
structure BlockLines where
  text : List Char
  /-- The end of the last line. -/
  lastBreak : List Char
  /-- The ends of empty lines behind it. -/
  emptyLines : List Char
  /-- The last line begins with a blank. -/
  isIndented : Bool

/-- The lines of a block with a known indentation. Folding joins two lines
unless one of them begins with a blank. -/
def takeBlockLines (isLiteral : Bool) (indent : Nat) (limit : Nat) :
    (steps : Nat) → BlockLines → Cursor → Option (BlockLines × Cursor)
  | 0, _, _ => none
  | steps + 1, b, c =>
    if c.column != indent || c.rest.isEmpty then some (b, c)
    else do
      let isIndented := startsWith isBlank c.rest
      let folds := !isLiteral && b.lastBreak == ['\n'] && !b.isIndented && !isIndented
      let joint :=
        if folds then (if b.emptyLines.isEmpty then [' '] else b.emptyLines)
        else b.lastBreak ++ b.emptyLines
      let (line, atEnd) := c.takeLine
      let (lastBreak, next) := atEnd.takeBreak
      let (emptyLines, _, c') ← takeEmptyLines (some indent) limit [] 0 next
      takeBlockLines isLiteral indent limit steps
        ⟨b.text ++ joint ++ line, lastBreak, emptyLines, isIndented⟩ c'

/-- The block from behind its indicator on, inside of a block of the column
`outer`, and the place behind it. -/
def takeBlock (isLiteral : Bool) (outer : Int) (limit : Nat) (c : Cursor) :
    Option (List Char × Cursor) := do
  let (header, c) ← takeHeader? c
  let c ← c.skipToBreak?
  let c := c.skipBreak
  let given := header.indentation?.map fun n => (max outer 0).toNat + n
  let (emptyLines, deepest, c) ← takeEmptyLines given limit [] 0 c
  let indent := given.getD (max deepest (max (outer + 1).toNat 1))
  let (b, c) ← takeBlockLines isLiteral indent limit limit ⟨[], [], emptyLines, false⟩ c
  let tail := match header.chomping with
    | .strip => []
    | .clip => b.lastBreak
    | .keep => b.lastBreak ++ b.emptyLines
  return (b.text ++ tail, c)

end ApiBaseline.Yaml
