import ApiBaseline.Json.Basic
import ApiBaseline.Text.Begun
import ApiBaseline.Text.Hexadecimal

/-!
# Tokens of a JSON text

A text is cut into punctuation, quoted texts and words; a word is a maximal
run of other characters and has to be a literal or a numeral. The machine that
does so reads character by character and keeps what it is inside of. Between
tokens only the blank, the tab and the two ends of line are skipped.

A quoted text is collected in code points, so that an escaped surrogate has a
place in it, and pairs are put together at its end.
-/

namespace ApiBaseline.Json

/-- A token of a JSON text. -/
inductive Token where
  | openBrace
  | closeBrace
  | openBracket
  | closeBracket
  | comma
  | colon
  /-- A value without parts. -/
  | scalar (value : Json)

namespace Token

/-- A character that is skipped between tokens. -/
def isSpace (c : Char) : Bool :=
  c == ' ' || c == '\t' || c == '\n' || c == '\r'

def punctuation? (c : Char) : Option Token :=
  if c = '\x7b' then some openBrace
  else if c = '\x7d' then some closeBrace
  else if c = '[' then some openBracket
  else if c = ']' then some closeBracket
  else if c = ',' then some comma
  else if c = ':' then some colon
  else none

/-- The value of a word. -/
def word? (cs : List Char) : Option Json :=
  if cs = "null".toList then some .null
  else if cs = "true".toList then some (.boolean true)
  else if cs = "false".toList then some (.boolean false)
  else (Numeral.ofChars? cs).map .number

/-! ## Quoted texts -/

/-- A code point is the first half of a surrogate pair. -/
def isLead (u : Nat) : Bool := 0xd800 ≤ u && u < 0xdc00

/-- A code point is the second half of a surrogate pair. -/
def isTrail (u : Nat) : Bool := 0xdc00 ≤ u && u < 0xe000

/-- The characters of code points, with surrogate pairs put together; none if
there is half a pair. -/
def characters? : List Nat → Option (List Char)
  | [] => some []
  | [u] => if isLead u || isTrail u then none else some [Char.ofNat u]
  | u :: v :: rest =>
    if isLead u then
      if isTrail v then
        (characters? rest).map
          (Char.ofNat (0x10000 + (u - 0xd800) * 0x400 + (v - 0xdc00)) :: ·)
      else none
    else if isTrail u then none
    else (characters? (v :: rest)).map (Char.ofNat u :: ·)

/-- The value of a quoted text. -/
def quoted (units : List Nat) : Json :=
  match characters? units with
  | some cs => .text (String.ofList cs)
  | none => .broken

/-- The code point of an escape of one character. -/
def escape? (c : Char) : Option Nat :=
  match c with
  | '"' | '\\' | '/' => some c.toNat
  | 'b' => some 0x08
  | 'f' => some 0x0c
  | 'n' => some 0x0a
  | 'r' => some 0x0d
  | 't' => some 0x09
  | _ => none

/-! ## The machine -/

/-- What the machine is inside of. Lists hold the last element first. -/
inductive Mode where
  | between
  | word (run : List Char)
  | quoted (units : List Nat)
  /-- Behind a backslash. -/
  | escape (units : List Nat)
  /-- In an escape of four digits, with the number of digits still missing. -/
  | hex (units : List Nat) (code : Nat) (missing : Nat)

namespace Mode

/-- The tokens that end where the mode ends. -/
def finish : Mode → Option (List Token)
  | between => some []
  | word run => (word? run.reverse).map fun v => [scalar v]
  | _ => none

/-- The step from between two tokens. -/
def begin (c : Char) : List Token × Mode :=
  if isSpace c then ([], between)
  else if c = '"' then ([], quoted [])
  else
    match punctuation? c with
    | some t => ([t], between)
    | none => ([], word [c])

/-- A character that cannot be part of a word. -/
def endsWord (c : Char) : Bool :=
  isSpace c || c == '"' || (punctuation? c).isSome

/-- One step: the tokens that it completes and the new mode. -/
def step (m : Mode) (c : Char) : Option (List Token × Mode) :=
  match m with
  | between => some (begin c)
  | word run =>
    if endsWord c then
      (word? run.reverse).map fun v =>
        let (ts, m) := begin c
        (scalar v :: ts, m)
    else some ([], word (c :: run))
  | quoted units =>
    if c = '"' then some ([scalar (Token.quoted units.reverse)], between)
    else if c = '\\' then some ([], escape units)
    else if c.toNat < 0x20 then none
    else some ([], quoted (c.toNat :: units))
  | escape units =>
    if c = 'u' then some ([], hex units 0 4)
    else (escape? c).map fun u => ([], quoted (u :: units))
  | hex units code missing =>
    (Text.hexValue? c).map fun d =>
      let next := 16 * code + d
      if missing ≤ 1 then ([], quoted (next :: units))
      else ([], hex units next (missing - 1))

/-- The tokens of a text that is read from a mode on, `done` holding earlier
ones with the last first. -/
def scan (m : Mode) (done : List Token) : List Char → Begun (List Token)
  | [] =>
    match m.finish with
    | some ts => ⟨done.reverse ++ ts, true⟩
    | none => ⟨done.reverse, false⟩
  | c :: cs =>
    match m.step c with
    | some (ts, m') => m'.scan (ts.reverse ++ done) cs
    | none => ⟨done.reverse, false⟩

end Mode

end Token

/-- The tokens of a text, as far as it can be cut into tokens. -/
def tokens (cs : List Char) : Begun (List Token) :=
  Token.Mode.between.scan [] cs

end ApiBaseline.Json
