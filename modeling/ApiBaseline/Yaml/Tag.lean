import ApiBaseline.Yaml.Cursor

/-!
# Directives, anchors and tags

The parts of a YAML text that are neither structure nor scalars: directives,
which stand before a document, and the anchors, aliases and tags of its nodes.
A tag is a handle and a suffix; a directive says what a handle stands for.

What is written with escapes is a sequence of bytes, which need not be a text:
the bytes of a character only have to look like them. It ends before a byte
that is zero.
-/

namespace ApiBaseline.Yaml

/-! ## Anchors -/

/-- A character that may follow the name of an anchor. -/
def endsAnchor : List Char → Bool
  | [] => true
  | c :: cs => startsBlank (c :: cs) || "?:,]\x7d%@\x60".contains c

/-- The name of an anchor or alias, from behind its indicator on. -/
def takeAnchor? (c : Cursor) : Option (String × Cursor) :=
  let (name, c') := c.takeWhile isNameChar
  if name.isEmpty || !endsAnchor c'.rest then none else some (String.ofList name, c')

/-! ## Tags -/

/-- The bytes that a tag, or a part of one, is made of. -/
abbrev TagBytes := List UInt8

def tagBytes (s : String) : TagBytes := s.toUTF8.toList

/-- A tag as it is written. The handle of a complete tag is empty. -/
structure Tag where
  handle : String
  suffix : TagBytes
  deriving DecidableEq, Repr

/-- A character of a tag's suffix; in a complete tag some more may stand. -/
def isTagChar (isComplete : Bool) (c : Char) : Bool :=
  isNameChar c || ";/?:@&=+$.!~*'()%".contains c || isComplete && ",[]".contains c

/-- One byte that is written as a percent sign and two digits. -/
def escapedByte? : List Char → Option (UInt8 × List Char)
  | '%' :: a :: b :: rest => do
    let high ← hexValue? a
    let low ← hexValue? b
    return (UInt8.ofNat (16 * high + low), rest)
  | _ => none

/-- The number of bytes that the first byte of a character announces. -/
def announced? (b : UInt8) : Option Nat :=
  if b < 0x80 then some 1
  else if 0xc0 ≤ b ∧ b < 0xe0 then some 2
  else if 0xe0 ≤ b ∧ b < 0xf0 then some 3
  else if 0xf0 ≤ b ∧ b < 0xf8 then some 4
  else none

def furtherBytes? : (count : Nat) → List Char → Option (TagBytes × List Char)
  | 0, cs => some ([], cs)
  | count + 1, cs => do
    let (b, rest) ← escapedByte? cs
    if 0x80 ≤ b ∧ b < 0xc0 then
      let (bs, rest) ← furtherBytes? count rest
      return (b :: bs, rest)
    else none

/-- The bytes that are written for one character, and what follows them. -/
def escapedCharacter? (cs : List Char) : Option (TagBytes × List Char) := do
  let (b, rest) ← escapedByte? cs
  let count ← announced? b
  let (bs, rest) ← furtherBytes? (count - 1) rest
  return (b :: bs, rest)

/-- The bytes of a suffix, its escapes replaced. -/
def unescapeTag? : (steps : Nat) → List Char → Option TagBytes
  | 0, _ => none
  | _, [] => some []
  | steps + 1, c :: cs =>
    if c = '%' then do
      let (bs, rest) ← escapedCharacter? (c :: cs)
      return bs ++ (← unescapeTag? steps rest)
    else do return tagBytes c.toString ++ (← unescapeTag? steps cs)

/-- A suffix that begins with text which has been read already; it is not
empty. A zero byte ends it. -/
def takeSuffix? (isComplete : Bool) (begun : List Char) (c : Cursor) :
    Option (TagBytes × Cursor) := do
  let (written, c') := c.takeWhile (isTagChar isComplete)
  let bytes ← unescapeTag? (written.length + 1) written
  if begun.isEmpty && written.isEmpty then none
  else
    let all := tagBytes (String.ofList (begun.drop 1)) ++ bytes
    return (all.takeWhile (· != 0), c')

/-- A handle: a mark, and perhaps a name and another mark. -/
def takeHandle? (c : Cursor) : Option (List Char × Cursor) :=
  if !startsWith (· == '!') c.rest then none
  else
    let (name, c') := (c.skip 1).takeWhile isNameChar
    if startsWith (· == '!') c'.rest then some ('!' :: name ++ ['!'], c'.skip 1)
    else some ('!' :: name, c')

/-- A handle with marks on both sides. -/
def isHandle (cs : List Char) : Bool :=
  2 ≤ cs.length && cs.head? == some '!' && cs.getLast? == some '!'

/-- A tag without what has to follow it. -/
def takeTagBody? (c : Cursor) : Option (Tag × Cursor) := do
  match c.rest with
  | _ :: '<' :: _ =>
    let (suffix, c) ← takeSuffix? true [] (c.skip 2)
    if startsWith (· == '>') c.rest then some (⟨"", suffix⟩, c.skip 1)
    else none
  | _ =>
    let (handle, c) ← takeHandle? c
    if isHandle handle then
      let (suffix, c) ← takeSuffix? false [] c
      return (⟨String.ofList handle, suffix⟩, c)
    else
      let (suffix, c) ← takeSuffix? false handle c
      -- A mark alone is a complete tag.
      if suffix.isEmpty then return (⟨"", tagBytes "!"⟩, c)
      else return (⟨"!", suffix⟩, c)

/-- A tag, with a blank or the end of the line behind it; inside brackets a
comma will also do. -/
def takeTag? (inFlow : Bool) (c : Cursor) : Option (Tag × Cursor) := do
  let (tag, c) ← takeTagBody? c
  if inFlow && startsWith (· == ',') c.rest || startsBlank c.rest then some (tag, c)
  else none

/-! ## Directives -/

/-- A directive before a document. -/
inductive Directive where
  /-- The version of the language. -/
  | version (major minor : Nat)
  /-- What a tag handle stands for. -/
  | handle (name : String) (beginning : TagBytes)
  deriving DecidableEq, Repr

/-- A number of a version. It has at most nine digits. -/
def takeVersionNumber? (c : Cursor) : Option (Nat × Cursor) :=
  let (digits, c') := c.takeWhile Char.isDigit
  if digits.isEmpty || 9 < digits.length then none
  else some (digits.foldl (fun n d => 10 * n + (d.toNat - '0'.toNat)) 0, c')

/-- The two numbers of a version. -/
def takeVersion? (c : Cursor) : Option (Directive × Cursor) := do
  let (major, c) ← takeVersionNumber? (c.skipWhile isBlank)
  if startsWith (· == '.') c.rest then
    let (minor, c) ← takeVersionNumber? (c.skip 1)
    return (.version major minor, c)
  else none

/-- A handle and what it stands for. -/
def takeHandleMeaning? (c : Cursor) : Option (Directive × Cursor) := do
  let (name, c) ← takeHandle? (c.skipWhile isBlank)
  if !isHandle name && name != ['!'] then none
  else if !startsWith isBlank c.rest then none
  else
    let (beginning, c) ← takeSuffix? true [] (c.skipWhile isBlank)
    if startsBlank c.rest then
      return (.handle (String.ofList name) beginning, c)
    else none

/-- A directive, from its indicator to the end of its line. -/
def takeDirective? (c : Cursor) : Option (Directive × Cursor) := do
  let (name, c) := (c.skip 1).takeWhile isNameChar
  if !startsBlank c.rest then none
  else
    let (directive, c) ←
      if name = "YAML".toList then takeVersion? c
      else if name = "TAG".toList then takeHandleMeaning? c
      else none
    let c ← c.skipToBreak?
    return (directive, c.skipBreak)

end ApiBaseline.Yaml
