import ApiBaseline.Text.Hexadecimal

/-!
# Characters and places of a YAML text

A YAML text is read with a cursor, which knows its line and column: columns
carry the block structure. A line ends at a line feed, a carriage return or
both together, and also at three marks beyond ASCII.
-/

namespace ApiBaseline.Yaml

export Text (hexValue?)

/-! ## Characters -/

/-- A character that a text may contain. -/
def isAllowed (c : Char) : Bool :=
  c == '\t' || c == '\n' || c == '\r' || (' ' ≤ c && c ≤ '~') || c == '\u0085'
    || ('\u00a0' ≤ c && c ≤ '\ufffd') || 0x10000 ≤ c.toNat

/-- The mark that may stand at the beginning of a text, or of a line between two
tokens. -/
def byteOrderMark : Char := '\ufeff'

/-- A blank within a line. -/
def isBlank (c : Char) : Bool := c == ' ' || c == '\t'

/-- A character that ends a line. -/
def isBreak (c : Char) : Bool :=
  c == '\n' || c == '\r' || c == '\u0085' || c == '\u2028' || c == '\u2029'

/-- A character of a name: of an anchor, a directive or a tag handle. -/
def isNameChar (c : Char) : Bool := c.isAlphanum || c == '_' || c == '-'

/-- The text from here on begins with a blank or the end of the line. -/
def startsBlank : List Char → Bool
  | [] => true
  | c :: _ => isBlank c || isBreak c

/-- The text from here on begins with the end of the line. -/
def startsBreak : List Char → Bool
  | [] => true
  | c :: _ => isBreak c

/-- The text from here on begins with a character that satisfies a test. -/
def startsWith (p : Char → Bool) : List Char → Bool
  | [] => false
  | c :: _ => p c

/-! ## The cursor -/

/-- The number of bytes that characters take. -/
def byteCount (cs : List Char) : Nat := cs.foldl (fun n c => n + c.utf8Size) 0

/-- A place in a text: what is left of it, and where that begins. -/
structure Cursor where
  rest : List Char
  /-- How many bytes stand before it. -/
  index : Nat
  line : Nat
  /-- How many characters of the line stand before it. -/
  column : Nat

namespace Cursor

/-- The beginning of a text. -/
def start (cs : List Char) : Cursor := ⟨cs, 0, 0, 0⟩

/-- The place behind some characters of the line. -/
def skip (c : Cursor) (n : Nat) : Cursor :=
  { c with
    rest := c.rest.drop n
    index := c.index + byteCount (c.rest.take n)
    column := c.column + n }

/-- The characters of the line that satisfy a test, up to the first one that
does not, and the place behind them. -/
def takeWhile (c : Cursor) (p : Char → Bool) : List Char × Cursor :=
  let taken := c.rest.takeWhile p
  (taken, c.skip taken.length)

/-- The place behind the characters that satisfy a test. -/
def skipWhile (c : Cursor) (p : Char → Bool) : Cursor := (c.takeWhile p).2

/-- The rest of the line and the place at its end. -/
def takeLine (c : Cursor) : List Char × Cursor := c.takeWhile (!isBreak ·)

/-- The end of a line, as the character that it stands for, and the place
behind it. At the end of the text nothing is taken. -/
def takeBreak (c : Cursor) : List Char × Cursor :=
  let next (n : Nat) : Cursor :=
    ⟨c.rest.drop n, c.index + byteCount (c.rest.take n), c.line + 1, 0⟩
  match c.rest with
  | '\r' :: '\n' :: _ => (['\n'], next 2)
  | '\u2028' :: _ => (['\u2028'], next 1)
  | '\u2029' :: _ => (['\u2029'], next 1)
  | _ :: _ => (['\n'], next 1)
  | [] => ([], c)

/-- The place behind the end of a line. -/
def skipBreak (c : Cursor) : Cursor := c.takeBreak.2

/-- The place behind blanks and a comment, at the end of the line; none if
something else stands before it. -/
def skipToBreak? (c : Cursor) : Option Cursor :=
  let c := c.skipWhile isBlank
  let c := if startsWith (· == '#') c.rest then c.takeLine.2 else c
  if startsBreak c.rest then some c else none

/-- Three marks at the beginning of a line, with nothing behind them that they
could belong to. -/
def atMarks (c : Cursor) (mark : Char) : Bool :=
  c.column == 0 && match c.rest with
    | c₁ :: c₂ :: c₃ :: rest => c₁ == mark && c₂ == mark && c₃ == mark && startsBlank rest
    | _ => false

/-- A line that marks the beginning or the end of a document. -/
def atDocumentMark (c : Cursor) : Bool := c.atMarks '-' || c.atMarks '.'

end Cursor

end ApiBaseline.Yaml
