import ApiBaseline.Text.Begun
import ApiBaseline.Yaml.Scalar
import ApiBaseline.Yaml.Tag

/-!
# Tokens of a YAML text

A text is cut into tokens, and its indentation is turned into brackets: where
a block begins or ends, a token says so. Whether something is the key of a
mapping shows only at the colon behind it; the place of what may be a key is
therefore kept, and when the colon comes, the tokens in front of it are put in
there. Such a key goes over one line and 1024 bytes at most.

The cutting is done by `Lines`, which holds the tokens so far together with
the open blocks and brackets. Each step adds the tokens of one indicator or
scalar. A text that breaks the rules has the tokens in front of that place, up
to the first one of which it is still open whether it begins a key.
-/

namespace ApiBaseline.Yaml

/-- How a scalar is written. -/
inductive Style where
  | plain
  /-- As a block that keeps its lines. -/
  | literal
  /-- In quotes, or as a block that folds its lines. -/
  | other
  deriving DecidableEq, Repr

/-- A token of a YAML text. -/
inductive Token where
  | directive (directive : Directive)
  | documentStart
  | documentEnd
  | blockSequence
  | blockMapping
  | blockEnd
  | openSequence
  | closeSequence
  | openMapping
  | closeMapping
  /-- The indicator of an item of a block. -/
  | blockEntry
  /-- The comma inside brackets. -/
  | flowEntry
  | key
  | value
  | alias (name : String)
  | anchor (name : String)
  | tag (tag : Tag)
  | scalar (style : Style) (text : String)
  deriving DecidableEq, Repr

/-- What may turn out to be a key. -/
structure PossibleKey where
  /-- The number of tokens before it. -/
  position : Nat
  /-- Where it begins. -/
  index : Nat
  line : Nat
  column : Nat
  /-- Nothing but a key can stand there. -/
  isRequired : Bool

/-- The tokens of a text so far, and what is open in it. -/
structure Lines where
  cursor : Cursor
  /-- The tokens, last first. -/
  tokens : List Token
  /-- How many tokens there are. -/
  count : Nat
  /-- The column of the innermost open block. -/
  indent : Int
  /-- The columns of the blocks around it, innermost first. -/
  outer : List Int
  /-- How many brackets are open. -/
  flow : Nat
  /-- A key may begin here. -/
  allowsKey : Bool
  /-- What may be a key outside of brackets and in each of them, innermost
  first. -/
  keys : List (Option PossibleKey)
  /-- More than the length of the text. -/
  limit : Nat

namespace Lines

def start (cs : List Char) : Lines :=
  ⟨.start cs, [], 0, -1, [], 0, true, [none], cs.length + 2⟩

/-- The cursor is inside of brackets. -/
def inFlow (l : Lines) : Bool := l.flow != 0

def push (l : Lines) (t : Token) : Lines :=
  { l with tokens := t :: l.tokens, count := l.count + 1 }

/-- The tokens with one more, which has a number of them before it. -/
def insert (l : Lines) (position : Nat) (t : Token) : Lines :=
  let (behind, before) := l.tokens.splitAt (l.count - position)
  { l with tokens := behind ++ t :: before, count := l.count + 1 }

/-- The cursor behind an indicator, and its token. -/
def pushIndicator (l : Lines) (t : Token) (width : Nat) : Lines :=
  { l.push t with cursor := l.cursor.skip width }

/-! ## Possible keys -/

/-- The cursor has left the line or the bytes that a key may have. -/
def isPast (l : Lines) (k : PossibleKey) : Bool :=
  k.line < l.cursor.line || k.index + 1024 < l.cursor.index

/-- Possible keys that the cursor has left behind are given up, unless nothing
but a key can stand there. -/
def dropPastKeys? (l : Lines) : Option Lines := do
  let keys ← l.keys.mapM fun key? =>
    match key? with
    | some k => if l.isPast k then (if k.isRequired then none else some none) else some (some k)
    | none => some none
  return { l with keys := keys }

/-- The innermost possible key is given up. -/
def removeKey? (l : Lines) : Option Lines :=
  match l.keys with
  | some k :: ks => if k.isRequired then none else some { l with keys := none :: ks }
  | _ => some l

/-- What begins at the cursor may be a key. -/
def saveKey? (l : Lines) : Option Lines :=
  if l.allowsKey then do
    let l ← l.removeKey?
    let c := l.cursor
    let key : PossibleKey :=
      ⟨l.count, c.index, c.line, c.column, !l.inFlow && l.indent == c.column⟩
    return { l with keys := some key :: l.keys.drop 1 }
  else some l

/-! ## Indentation -/

/-- Ends the blocks that are deeper than a column. -/
def closeTo (l : Lines) (column : Int) : Lines :=
  if l.inFlow then l
  else
    let deeper := (l.indent :: l.outer).takeWhile (column < ·)
    match (l.indent :: l.outer).drop deeper.length with
    | indent :: outer =>
      { deeper.foldl (fun l _ => l.push .blockEnd) l with indent := indent, outer := outer }
    | [] => l

/-- Begins a block at a column if none is open there; its token goes to a
position among the others. -/
def openAt (l : Lines) (column : Nat) (position : Nat) (t : Token) : Lines :=
  if l.inFlow || (column : Int) ≤ l.indent then l
  else { l.insert position t with indent := column, outer := l.indent :: l.outer }

/-! ## Blanks -/

/-- The cursor at the next token. A new line may begin with a key. Tabs count
as blanks where they cannot be taken for indentation. A byte order mark at the
beginning of a line takes one column. -/
def skipBlanks : (steps : Nat) → Lines → Lines
  | 0, l => l
  | steps + 1, l =>
    let c := l.cursor
    let c := if c.column = 0 && startsWith (· == byteOrderMark) c.rest then c.skip 1 else c
    let c := c.skipWhile fun ch =>
      ch == ' ' || (l.inFlow || !l.allowsKey) && ch == '\t'
    let c := if startsWith (· == '#') c.rest then c.takeLine.2 else c
    if startsWith isBreak c.rest then
      skipBlanks steps { l with cursor := c.skipBreak, allowsKey := l.allowsKey || !l.inFlow }
    else { l with cursor := c }

/-! ## Indicators -/

/-- A directive or the mark of a document ends all blocks. -/
def toDocumentLevel? (l : Lines) : Option Lines := do
  let l ← (l.closeTo (-1)).removeKey?
  return { l with allowsKey := false }

def directive? (l : Lines) : Option Lines := do
  let l ← l.toDocumentLevel?
  let (directive, c) ← takeDirective? l.cursor
  return { l.push (.directive directive) with cursor := c }

/-- The mark of a document's beginning or end. -/
def documentMark? (l : Lines) (t : Token) : Option Lines := do
  let l ← l.toDocumentLevel?
  return l.pushIndicator t 3

def openFlow? (l : Lines) (t : Token) : Option Lines := do
  let l ← l.saveKey?
  let l := { l with keys := none :: l.keys, flow := l.flow + 1, allowsKey := true }
  return l.pushIndicator t 1

def closeFlow? (l : Lines) (t : Token) : Option Lines := do
  let l ← l.removeKey?
  let l := if l.inFlow then { l with keys := l.keys.drop 1, flow := l.flow - 1 } else l
  return { l.pushIndicator t 1 with allowsKey := false }

/-- A comma. -/
def flowEntry? (l : Lines) : Option Lines := do
  let l ← l.removeKey?
  return { l.pushIndicator .flowEntry 1 with allowsKey := true }

/-- Begins a block at the cursor, where that is allowed. -/
def openHere? (l : Lines) (t : Token) : Option Lines :=
  if l.inFlow then some l
  else if l.allowsKey then some (l.openAt l.cursor.column l.count t)
  else none

/-- The indicator of an item. -/
def blockEntry? (l : Lines) : Option Lines := do
  let l ← l.openHere? .blockSequence
  let l ← l.removeKey?
  return { l.pushIndicator .blockEntry 1 with allowsKey := true }

/-- The indicator of a key. -/
def key? (l : Lines) : Option Lines := do
  let l ← l.openHere? .blockMapping
  let l ← l.removeKey?
  return { l.pushIndicator .key 1 with allowsKey := !l.inFlow }

/-- The colon behind something that turns out to be a key. -/
def valueOf (l : Lines) (k : PossibleKey) : Lines :=
  let l := (l.insert k.position .key).openAt k.column k.position .blockMapping
  { l.pushIndicator .value 1 with keys := none :: l.keys.drop 1, allowsKey := false }

/-- The indicator of a value. -/
def value? (l : Lines) : Option Lines := do
  let l ← l.dropPastKeys?
  match l.keys with
  | some k :: _ => return l.valueOf k
  | _ =>
    let l ← l.openHere? .blockMapping
    return { l.pushIndicator .value 1 with allowsKey := !l.inFlow }

/-! ## Nodes -/

def property? (l : Lines) (take : Lines → Option (Token × Cursor)) : Option Lines := do
  let l ← l.saveKey?
  let (t, c) ← take { l with allowsKey := false }
  return { l.push t with cursor := c, allowsKey := false }

/-- An anchor or alias, by its token. -/
def named? (token : String → Token) (l : Lines) : Option (Token × Cursor) := do
  let (name, c) ← takeAnchor? (l.cursor.skip 1)
  return (token name, c)

def tagged? (l : Lines) : Option (Token × Cursor) := do
  let (tag, c) ← takeTag? l.inFlow l.cursor
  return (.tag tag, c)

def quoted? (isSingle : Bool) (l : Lines) : Option (Token × Cursor) := do
  let (text, c) ← takeQuoted isSingle l.limit l.limit [] (l.cursor.skip 1)
  return (.scalar .other (String.ofList text), c)

def block? (l : Lines) (isLiteral : Bool) : Option Lines := do
  let l ← l.removeKey?
  let (text, c) ← takeBlock isLiteral l.indent l.limit (l.cursor.skip 1)
  let style := if isLiteral then Style.literal else .other
  return { l.push (.scalar style (String.ofList text)) with cursor := c, allowsKey := true }

/-- A plain scalar. A key may follow it on a new line. -/
def plain? (l : Lines) : Option Lines := do
  let l ← l.saveKey?
  let p ← takePlain l.inFlow (l.indent + 1) l.limit l.limit [] Gap.none l.cursor
  return { l.push (.scalar .plain (String.ofList p.text)) with
    cursor := p.cursor
    allowsKey := p.isBroken }

/-- A plain scalar may begin with a character: with no indicator, or with one
that does not stand alone. -/
def beginsPlain (l : Lines) (c : Char) (cs : List Char) : Bool :=
  !(isBlank c || isBreak c || "-?:,[]\x7b\x7d#&*!|>'\"%@\x60".contains c)
    || c == '-' && !startsWith isBlank cs
    || !l.inFlow && (c == '?' || c == ':') && !startsBlank cs

/-! ## The whole text -/

/-- The step at a character that stands at the cursor. -/
def step? (l : Lines) (c : Char) (cs : List Char) : Option Lines :=
  if l.cursor.column = 0 && c == '%' then l.directive?
  else if l.cursor.atMarks '-' then l.documentMark? .documentStart
  else if l.cursor.atMarks '.' then l.documentMark? .documentEnd
  else if c == '[' then l.openFlow? .openSequence
  else if c == '\x7b' then l.openFlow? .openMapping
  else if c == ']' then l.closeFlow? .closeSequence
  else if c == '\x7d' then l.closeFlow? .closeMapping
  else if c == ',' then l.flowEntry?
  else if c == '-' && startsBlank cs then l.blockEntry?
  else if c == '?' && (l.inFlow || startsBlank cs) then l.key?
  else if c == ':' && (l.inFlow || startsBlank cs) then l.value?
  else if c == '*' then l.property? (named? .alias)
  else if c == '&' then l.property? (named? .anchor)
  else if c == '!' then l.property? tagged?
  else if c == '|' && !l.inFlow then l.block? true
  else if c == '>' && !l.inFlow then l.block? false
  else if c == '\'' then l.property? (quoted? true)
  else if c == '"' then l.property? (quoted? false)
  else if l.beginsPlain c cs then l.plain?
  else none

/-- The end of the text ends all blocks. There must be nothing left that has to be
a key. -/
def finish? (l : Lines) : Option (List Token) :=
  if l.keys.any (·.any (·.isRequired)) then none else some (l.closeTo (-1)).tokens.reverse

/-- The tokens that are known to be what they are: no key indicator can still
come before or among them. -/
def settled (l : Lines) : List Token :=
  let undecided := l.keys.filterMap fun key? => key?.map (·.position)
  l.tokens.reverse.take (undecided.foldl min l.count)

/-- The tokens of the text from the cursor on, behind those so far. -/
def run : (steps : Nat) → Lines → Begun (List Token)
  | 0, l => ⟨l.settled, false⟩
  | steps + 1, l =>
    let next := l.skipBlanks l.limit
    let next := next.closeTo next.cursor.column
    match next.cursor.rest with
    | [] =>
      match next.finish? with
      | some tokens => ⟨tokens, true⟩
      | none => ⟨l.settled, false⟩
    | c :: cs =>
      match (next.step? c cs).bind dropPastKeys? with
      | some next => run steps next
      | none => ⟨l.settled, false⟩

end Lines

/-- The tokens of a text, as far as it keeps the rules. With a character that is
not allowed there are none. -/
def tokens (s : String) : Begun (List Token) :=
  let cs := s.toList
  if cs.all isAllowed then
    let l := Lines.start cs
    l.run l.limit
  else ⟨[], false⟩

end ApiBaseline.Yaml
