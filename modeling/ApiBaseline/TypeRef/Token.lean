import ApiBaseline.Text.Blank

/-!
# Tokens of a written reference

A written reference consists of delimiter characters and of names, which are
maximal runs of other characters; blanks between them carry no meaning. Each
token is paired with the byte offset at which it begins.

Blanks are skipped one byte at a time. A blank that takes several bytes
therefore leaves the cursor inside a character: nothing behind it can be read,
and the token list ends there.
-/

namespace ApiBaseline.TypeRef

/-- A token of a written reference. -/
inductive Token where
  /-- `<` -/
  | less
  /-- `>` -/
  | greater
  /-- `,` -/
  | comma
  /-- `[` -/
  | openBracket
  /-- `]` -/
  | closeBracket
  /-- `&` -/
  | ampersand
  /-- `*` -/
  | star
  /-- `!` -/
  | bang
  /-- A maximal run of characters that are neither blank nor delimiters. -/
  | name (text : String)
  deriving DecidableEq, Repr

/-- Where a text stops yielding tokens. -/
inductive Stop where
  /-- At its end, at this offset. -/
  | finish (offset : Nat)
  /-- At a blank of several bytes, at this offset. -/
  | split (offset : Nat)
  deriving DecidableEq, Repr

def Token.delimiter? : Char → Option Token
  | '<' => some .less
  | '>' => some .greater
  | ',' => some .comma
  | '[' => some .openBracket
  | ']' => some .closeBracket
  | '&' => some .ampersand
  | '*' => some .star
  | '!' => some .bang
  | _ => none

/-- A name that has been begun: its offset and its characters, last first. -/
abbrev Pending := Option (Nat × List Char)

/-- The token of a begun name, if there is one. -/
def Pending.flush : Pending → List (Nat × Token)
  | none => []
  | some (start, cs) => [(start, .name (String.ofList cs.reverse))]

/-- A begun name with one more character, which stands at `offset`. -/
def Pending.push (offset : Nat) (c : Char) : Pending → Pending
  | none => some (offset, [c])
  | some (start, cs) => some (start, c :: cs)

/-- The tokens of the characters from `offset` on, and where they stop. -/
def scan (offset : Nat) (pending : Pending) : List Char → List (Nat × Token) × Stop
  | [] => (pending.flush, .finish offset)
  | c :: cs =>
    if Text.isBlank c then
      if c.utf8Size = 1 then
        let (tokens, stop) := scan (offset + 1) none cs
        (pending.flush ++ tokens, stop)
      else (pending.flush, .split offset)
    else
      match Token.delimiter? c with
      | some token =>
        let (tokens, stop) := scan (offset + c.utf8Size) none cs
        (pending.flush ++ (offset, token) :: tokens, stop)
      | none => scan (offset + c.utf8Size) (pending.push offset c) cs

/-- The tokens of a text, each with its offset, and where they stop. -/
def tokens (s : String) : List (Nat × Token) × Stop :=
  scan 0 none s.toList

end ApiBaseline.TypeRef
