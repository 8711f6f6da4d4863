import ApiBaseline.Json.Token

/-!
# Reading JSON

The tokens of a text are read by a machine with a stack. The stack holds the
open arrays and objects, innermost first; the focus says what may come next on
top of them. The text is one value and nothing else. Where it breaks the rules,
everything that is open ends in something broken.
-/

namespace ApiBaseline.Json

/-- The fields of an object that is being read. A name may be broken. -/
abbrev ReadFields := List (Option String × Json)

/-- An open array or object; what it has so far is held with the last first. -/
inductive Frame where
  | array (done : List Json)
  /-- The value under a name is being read. -/
  | object (done : ReadFields) (name? : Option String)

/-- What may come next on top of the open arrays and objects. -/
inductive Focus where
  /-- A value. -/
  | value
  /-- A value, or the end of the array. -/
  | firstItem
  /-- A name, or the end of the object. -/
  | firstName
  /-- A name, behind the fields that the object has. -/
  | name (done : ReadFields)
  /-- The colon behind a name. -/
  | colon (done : ReadFields) (name? : Option String)
  /-- What follows a value. -/
  | complete (value : Json)

/-- The fields in front of the first broken name. -/
def namedFields : ReadFields → Begun (List (String × Json))
  | [] => ⟨[], true⟩
  | (some k, v) :: fs => (namedFields fs).map ((k, v) :: ·)
  | (none, _) :: _ => ⟨[], false⟩

/-- The object of some fields, the last one first. -/
def closeObject (done : ReadFields) : Json :=
  let fields := namedFields done.reverse
  if fields.isWhole then .object fields.value else .brokenObject fields.value

/-- An object that breaks off behind some fields, the last one first. -/
def breakObject (done : ReadFields) : Json := closeObject ((none, .broken) :: done)

/-- The value that breaks off in the focus. -/
def Focus.breakOff : Focus → Json
  | value | firstItem => .broken
  | firstName => breakObject []
  | name done | colon done _ => breakObject done
  | complete v => v

/-- An open array or object that breaks off behind the value in it. -/
def Frame.breakOff (v : Json) : Frame → Json
  | array done => .array (.broken :: v :: done).reverse
  | object done k => breakObject ((k, v) :: done)

/-- The state of the reading machine. -/
structure Reading where
  frames : List Frame
  focus : Focus

namespace Reading

def initial : Reading := ⟨[], .value⟩

def stepValue (frames : List Frame) : Token → Option Reading
  | .scalar v => some ⟨frames, .complete v⟩
  | .openBracket => some ⟨frames, .firstItem⟩
  | .openBrace => some ⟨frames, .firstName⟩
  | _ => none

def stepName (frames : List Frame) (done : ReadFields) : Token → Option Reading
  | .scalar (.text k) => some ⟨frames, .colon done (some k)⟩
  | .scalar .broken => some ⟨frames, .colon done none⟩
  | _ => none

def stepComplete (v : Json) : List Frame → Token → Option Reading
  | .array done :: fs, .comma => some ⟨.array (v :: done) :: fs, .value⟩
  | .array done :: fs, .closeBracket =>
    some ⟨fs, .complete (.array (v :: done).reverse)⟩
  | .object done k :: fs, .comma => some ⟨fs, .name ((k, v) :: done)⟩
  | .object done k :: fs, .closeBrace =>
    some ⟨fs, .complete (closeObject ((k, v) :: done))⟩
  | _, _ => none

def step (r : Reading) (t : Token) : Option Reading :=
  match r.focus, t with
  | .value, t => stepValue r.frames t
  | .firstItem, .closeBracket => some ⟨r.frames, .complete (.array [])⟩
  | .firstItem, t => stepValue (.array [] :: r.frames) t
  | .firstName, .closeBrace => some ⟨r.frames, .complete (.object [])⟩
  | .firstName, t => stepName r.frames [] t
  | .name done, t => stepName r.frames done t
  | .colon done k, .colon => some ⟨.object done k :: r.frames, .value⟩
  | .complete v, t => stepComplete v r.frames t
  | _, _ => none

/-- Reads tokens until one is refused. -/
def run (r : Reading) : List Token → Begun Reading
  | [] => ⟨r, true⟩
  | t :: ts =>
    match r.step t with
    | some r' => r'.run ts
    | none => ⟨r, false⟩

/-- The value that has been read when the text ends. -/
def finish (r : Reading) : Begun Json :=
  match r.focus, r.frames with
  | .complete v, [] => ⟨v, true⟩
  | focus, frames => ⟨frames.foldl Frame.breakOff focus.breakOff, false⟩

end Reading

/-- The value that a text is, as far as it can be read. -/
def parse (s : String) : Begun Json :=
  (tokens s.toList).andThen fun ts => (Reading.initial.run ts).andThen Reading.finish

end ApiBaseline.Json
