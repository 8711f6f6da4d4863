import ApiBaseline.Json.Basic

/-!
# Writing JSON

A value is written either in one line without spaces, or over several lines:
then every item and field has a line of its own, two blanks further in than
the bracket that opens it, and a field's name is followed by a colon and a
blank. Empty arrays and objects stay in one line. Texts escape only what they
have to: quotes, backslashes and control characters below the blank. What is
broken is written as half of a surrogate pair.
-/

namespace ApiBaseline.Json

/-- The characters of a hexadecimal number of four digits. -/
def hexChars (n : Nat) : List Char :=
  [n / 4096 % 16, n / 256 % 16, n / 16 % 16, n % 16].map Nat.digitChar

/-- A character inside a text. -/
def escapedChar (c : Char) : List Char :=
  if c = '"' then ['\\', '"']
  else if c = '\\' then ['\\', '\\']
  else if c = '\x08' then ['\\', 'b']
  else if c = '\x0c' then ['\\', 'f']
  else if c = '\n' then ['\\', 'n']
  else if c = '\r' then ['\\', 'r']
  else if c = '\t' then ['\\', 't']
  else if c.toNat < 0x20 then '\\' :: 'u' :: hexChars c.toNat
  else [c]

/-- A text in quotes. -/
def quotedChars (s : String) : List Char :=
  '"' :: s.toList.flatMap escapedChar ++ ['"']

/-- The characters of a value that has no parts. -/
def scalarChars : Json → List Char
  | null => "null".toList
  | boolean true => "true".toList
  | boolean false => "false".toList
  | number n => n.chars
  | text s => quotedChars s
  | array _ => []
  | object _ => []
  | broken => '"' :: '\\' :: 'u' :: hexChars 0xd800 ++ ['"']
  | brokenObject _ => '"' :: '\\' :: 'u' :: hexChars 0xd800 ++ ['"']

/-! ## In one line -/

mutual

def lineChars : Json → List Char
  | array [] => ['[', ']']
  | array (v :: vs) => '[' :: v.lineChars ++ lineItems vs ++ [']']
  | object [] => ['\x7b', '\x7d']
  | object ((k, v) :: fs) =>
    '\x7b' :: quotedChars k ++ ':' :: v.lineChars ++ lineFields fs ++ ['\x7d']
  | v => scalarChars v

/-- Further items, each behind a comma. -/
def lineItems : List Json → List Char
  | [] => []
  | v :: vs => ',' :: v.lineChars ++ lineItems vs

/-- Further fields, each behind a comma. -/
def lineFields : List (String × Json) → List Char
  | [] => []
  | (k, v) :: fs => ',' :: quotedChars k ++ ':' :: v.lineChars ++ lineFields fs

end

def line (v : Json) : String := String.ofList v.lineChars

/-! ## Over several lines -/

def newLine (indent : Nat) : List Char := '\n' :: List.replicate (2 * indent) ' '

mutual

/-- The characters of a value over several lines, further lines indented. -/
def prettyChars (indent : Nat) : Json → List Char
  | array [] => ['[', ']']
  | array (v :: vs) =>
    '[' :: newLine (indent + 1) ++ v.prettyChars (indent + 1)
      ++ prettyItems (indent + 1) vs ++ newLine indent ++ [']']
  | object [] => ['\x7b', '\x7d']
  | object ((k, v) :: fs) =>
    '\x7b' :: newLine (indent + 1) ++ quotedChars k ++ ':' :: ' '
      :: v.prettyChars (indent + 1) ++ prettyFields (indent + 1) fs ++ newLine indent
      ++ ['\x7d']
  | v => scalarChars v

/-- Further items, each behind a comma and on a new line. -/
def prettyItems (indent : Nat) : List Json → List Char
  | [] => []
  | v :: vs => ',' :: newLine indent ++ v.prettyChars indent ++ prettyItems indent vs

/-- Further fields, each behind a comma and on a new line. -/
def prettyFields (indent : Nat) : List (String × Json) → List Char
  | [] => []
  | (k, v) :: fs =>
    ',' :: newLine indent ++ quotedChars k ++ ':' :: ' ' :: v.prettyChars indent
      ++ prettyFields indent fs

end

/-- The value over several lines, with an end of line behind it. -/
def pretty (v : Json) : String := String.ofList (v.prettyChars 0 ++ ['\n'])

end ApiBaseline.Json
