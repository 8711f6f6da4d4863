import ApiBaseline.Text.Hexadecimal
import ApiBaseline.Text.Unprintable

/-!
# Quoted text in messages

An error message shows the text it is about between double quotes, so that
blanks and invisible characters can be told apart: quotes and backslashes are
escaped, line ends, tabs and the null character have a letter, and every other
character without a printed form is written as its code point.
-/

namespace ApiBaseline.Text

/-- A character that cannot be seen on its own. -/
def isUnprintable (c : Char) : Bool :=
  Unprintable.ranges.any fun (low, high) => low ≤ c.toNat && c.toNat ≤ high

/-- One character as it stands in a quoted text. -/
def quotedChar (c : Char) : List Char :=
  match c with
  | '"' => ['\\', '"']
  | '\\' => ['\\', '\\']
  | '\n' => ['\\', 'n']
  | '\r' => ['\\', 'r']
  | '\t' => ['\\', 't']
  | '\x00' => ['\\', '0']
  | c =>
    if isUnprintable c then
      ['\\', 'u', '\x7b'] ++ hexadecimal c.toNat ++ ['\x7d']
    else [c]

/-- The text between double quotes, with escapes. -/
def quoted (s : String) : String :=
  String.ofList ('"' :: s.toList.flatMap quotedChar ++ ['"'])

end ApiBaseline.Text
