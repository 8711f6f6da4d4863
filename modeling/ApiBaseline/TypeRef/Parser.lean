import ApiBaseline.Text.Quoted
import ApiBaseline.TypeRef.Basic
import ApiBaseline.TypeRef.Token

/-!
# Reading references

A written reference is read token by token by a machine with a stack. The
stack holds the named types whose argument lists are open, innermost first;
the focus says what is under way on top of it. Each token either moves the
machine on or is refused with a reason, so a refused token is the first one
that cannot stand in its place, and its offset is reported.
-/

namespace ApiBaseline.TypeRef

/-- Why a token, or the end of the text, is refused. -/
inductive Reason where
  /-- A type has to begin with a name, or a parameter mark needs one. -/
  | typeName
  /-- An argument is followed by a comma or by the end of its list. -/
  | separator
  /-- An array suffix holds commas only. -/
  | closingBracket
  /-- The reference is complete. -/
  | trailing
  deriving DecidableEq, Repr

def Reason.message : Reason → String
  | typeName => "expected a type name"
  | separator => "expected ',' or '>'"
  | closingBracket => "expected ']'"
  | trailing => "unexpected trailing input"

/-- What is under way on top of the open argument lists. -/
inductive Focus where
  /-- A type has to begin here. -/
  | start
  /-- The name of a generic parameter has to follow. -/
  | marked
  /-- A named type that may still open an argument list. -/
  | named (name : String)
  /-- A type that may still take suffixes. -/
  | complete (type : TypeRef)
  /-- An array suffix with this rank so far. -/
  | brackets (element : TypeRef) (rank : Nat)
  deriving DecidableEq, Repr

/-- A named type whose argument list is open, with the arguments so far. -/
structure Frame where
  name : String
  args : List TypeRef
  deriving DecidableEq, Repr

/-- The state of the reading machine. -/
structure Reading where
  frames : List Frame
  focus : Focus
  deriving DecidableEq, Repr

namespace Reading

def initial : Reading := ⟨[], .start⟩

/-- The step from a type that is complete but for its suffixes. -/
def stepComplete (frames : List Frame) (type : TypeRef) (token : Token) :
    Except Reason Reading :=
  match token, frames with
  | .openBracket, _ => .ok ⟨frames, .brackets type 1⟩
  | .ampersand, _ => .ok ⟨frames, .complete (.byRef type)⟩
  | .star, _ => .ok ⟨frames, .complete (.pointer type)⟩
  | .comma, f :: fs => .ok ⟨{ f with args := f.args ++ [type] } :: fs, .start⟩
  | .greater, f :: fs => .ok ⟨fs, .complete (.named f.name (f.args ++ [type]))⟩
  | _, [] => .error .trailing
  | _, _ :: _ => .error .separator

def step (r : Reading) (token : Token) : Except Reason Reading :=
  match r.focus, token with
  | .start, .bang => .ok ⟨r.frames, .marked⟩
  | .start, .name text => .ok ⟨r.frames, .named text⟩
  | .start, _ => .error .typeName
  | .marked, .name text => .ok ⟨r.frames, .complete (.param text)⟩
  | .marked, _ => .error .typeName
  | .named name, .less => .ok ⟨⟨name, []⟩ :: r.frames, .start⟩
  | .named name, token => stepComplete r.frames (.named name []) token
  | .complete type, token => stepComplete r.frames type token
  | .brackets element rank, .comma => .ok ⟨r.frames, .brackets element (rank + 1)⟩
  | .brackets element rank, .closeBracket =>
    .ok ⟨r.frames, .complete (.array element rank)⟩
  | .brackets .., _ => .error .closingBracket

/-- The reference that has been read, when the text may end here. -/
def finish (r : Reading) : Except Reason TypeRef :=
  match r.focus, r.frames with
  | .start, _ | .marked, _ => .error .typeName
  | .brackets .., _ => .error .closingBracket
  | .named _, _ :: _ | .complete _, _ :: _ => .error .separator
  | .named name, [] => .ok (.named name [])
  | .complete type, [] => .ok type

/-- Reads tokens until one is refused. -/
def run (r : Reading) : List (Nat × Token) → Except (Reason × Nat) Reading
  | [] => .ok r
  | (offset, token) :: rest =>
    match r.step token with
    | .ok r' => r'.run rest
    | .error reason => .error (reason, offset)

end Reading

/-- Why a text is not a reference. -/
inductive ParseError where
  /-- A token or the end of the text is refused at a byte offset. -/
  | refused (text : String) (reason : Reason) (offset : Nat)
  /-- The cursor came to stand inside a character of several bytes. The program
  does not go on from there. -/
  | splitCharacter (offset : Nat)
  deriving DecidableEq, Repr

/-- The reference that a text stands for. -/
def parse (s : String) : Except ParseError TypeRef :=
  let (tokens, stop) := TypeRef.tokens s
  match Reading.initial.run tokens, stop with
  | .error (reason, offset), _ => .error (.refused s reason offset)
  | .ok _, .split offset => .error (.splitCharacter offset)
  | .ok r, .finish offset =>
    match r.finish with
    | .ok t => .ok t
    | .error reason => .error (.refused s reason offset)

/-- The wording of a refusal. A split character has none. -/
def ParseError.message? : ParseError → Option String
  | refused text reason offset =>
    some s!"invalid type reference {Text.quoted text}: {reason.message} at offset {offset}"
  | splitCharacter _ => none

end ApiBaseline.TypeRef
