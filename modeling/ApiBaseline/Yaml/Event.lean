import ApiBaseline.Yaml.Token

/-!
# Events of a YAML document

A document is a tree of scalars, sequences and mappings; an alias stands for a
node that has an anchor. The tree is told as a row of events: the beginning
and the end of a node with parts enclose the events of its parts. Events are
found in the tokens by recursive descent. A text may hold one document; without
a document there is one event for a blank node. Where the tokens break the
rules, the events in front of that place are known.

Anchors are numbered by how many different names stand before them. A name
that is given again therefore shares its number with the next new name.
-/

namespace ApiBaseline.Yaml

/-- What may stand before a node. -/
structure Properties where
  /-- The number of its anchor. -/
  anchor? : Option Nat
  /-- Its tag, with the handle replaced by what it stands for. -/
  tag? : Option TagBytes
  deriving DecidableEq, Repr, Inhabited

/-- What comes next in a document. -/
inductive Event where
  | scalar (properties : Properties) (style : Style) (text : String)
  | beginSequence (properties : Properties)
  | beginMapping (properties : Properties)
  /-- The end of the innermost sequence or mapping. -/
  | finish
  /-- The node that an anchor's number was last given to. -/
  | alias (anchor : Nat)
  deriving DecidableEq, Repr

/-- Nothing stands before a node. -/
def Properties.none : Properties := ⟨.none, .none⟩

/-- A node that nothing is written for. -/
def Event.blank : Event := .scalar .none .plain ""

/-! ## Finding events -/

/-- The rest of the tokens, and the events so far. -/
structure Composing where
  tokens : List Token
  /-- The text breaks the rules behind the tokens. -/
  isBroken : Bool
  /-- What tag handles stand for. -/
  handles : List (String × TagBytes)
  /-- The names of anchors with their numbers, last first. -/
  names : List (String × Nat)
  /-- How many different names there are. -/
  nameCount : Nat
  events : Array Event

/-- A step that may read tokens and tell events, until the tokens break the
rules. -/
abbrev Compose := OptionT (StateM Composing)

namespace Compose

/-- The tokens break the rules. -/
def fail {α : Type} : Compose α := failure

/-- The next token, or none at the end of the text. -/
def peek : Compose (Option Token) := do
  let s ← get
  if s.tokens.isEmpty && s.isBroken then fail else return s.tokens.head?

/-- Goes on behind the next token. -/
def drop : Compose Unit := modify fun s => { s with tokens := s.tokens.drop 1 }

/-- Takes the next token, which has to be a certain one. -/
def expect (t : Token) : Compose Unit := do
  if (← peek) = some t then drop else fail

def tell (e : Event) : Compose Unit := modify fun s => { s with events := s.events.push e }

/-- The number of a new anchor. -/
def registerAnchor (name : String) : Compose Nat := do
  let s ← get
  let number := s.nameCount
  let isNew := (s.names.lookup name).isNone
  set { s with
    names := (name, number) :: s.names
    nameCount := if isNew then number + 1 else number }
  return number

/-- The number that an alias means. -/
def resolveAlias (name : String) : Compose Nat := do
  match (← get).names.lookup name with
  | some number => return number
  | none => fail

/-- A tag with its handle replaced by what it stands for. -/
def resolveTag (tag : Tag) : Compose TagBytes := do
  if tag.handle.isEmpty then return tag.suffix
  match (← get).handles.lookup tag.handle with
  | some beginning => return beginning ++ tag.suffix
  | none => fail

/-- The anchor and the tag before a node, in either order. -/
def properties : Compose (Option String × Option Tag) := do
  match ← peek with
  | some (.anchor name) =>
    drop
    match ← peek with
    | some (.tag tag) => drop; return (some name, some tag)
    | _ => return (some name, none)
  | some (.tag tag) =>
    drop
    match ← peek with
    | some (.anchor name) => drop; return (some name, some tag)
    | _ => return (none, some tag)
  | _ => return (none, none)

/-- What may stand in a place of the text. -/
structure Place where
  /-- Blocks may stand there. -/
  takesBlocks : Bool
  /-- So may the items of a sequence without indentation. -/
  takesItems : Bool

/-- One of the tokens comes next, or none does. -/
def atOneOf (ts : List Token) : Compose Bool := do
  match ← peek with
  | some t => return ts.contains t
  | none => return false

def blank : Compose Unit := tell .blank

mutual

def node (place : Place) : (steps : Nat) → Compose Unit
  | 0 => fail
  | steps + 1 => do
    if let some (.alias name) ← peek then
      drop
      tell (.alias (← resolveAlias name))
      return
    let (anchor?, tag?) ← properties
    let tag? ← tag?.mapM resolveTag
    let next ← peek
    let isBare := anchor?.isNone && tag?.isNone
    let own : Compose Properties := do return ⟨← anchor?.mapM registerAnchor, tag?⟩
    match next with
    | some (.scalar style text) =>
      drop
      tell (.scalar (← own) style text)
    | some .openSequence =>
      drop
      tell (.beginSequence (← own))
      flowItems true steps
    | some .openMapping =>
      drop
      tell (.beginMapping (← own))
      flowEntries true steps
    | _ =>
      if next = some .blockEntry && place.takesItems then
        tell (.beginSequence (← own))
        looseItems steps
      else if next = some .blockSequence && place.takesBlocks then
        drop
        tell (.beginSequence (← own))
        blockItems steps
      else if next = some .blockMapping && place.takesBlocks then
        drop
        tell (.beginMapping (← own))
        blockEntries steps
      else if isBare then fail
      else tell (.scalar (← own) .plain "")

/-- The items of a sequence with its own indentation. -/
def blockItems : (steps : Nat) → Compose Unit
  | 0 => fail
  | steps + 1 => do
    match ← peek with
    | some .blockEntry =>
      drop
      if ← atOneOf [.blockEntry, .blockEnd] then blank else node ⟨true, false⟩ steps
      blockItems steps
    | some .blockEnd => drop; tell .finish
    | _ => fail

/-- The items of a sequence at the column of the keys around it. -/
def looseItems : (steps : Nat) → Compose Unit
  | 0 => fail
  | steps + 1 => do
    match ← peek with
    | some .blockEntry =>
      drop
      if ← atOneOf [.blockEntry, .key, .value, .blockEnd] then blank
      else node ⟨true, false⟩ steps
      looseItems steps
    | _ => tell .finish

/-- The entries of a mapping with its own indentation. -/
def blockEntries : (steps : Nat) → Compose Unit
  | 0 => fail
  | steps + 1 => do
    match ← peek with
    | some .key =>
      drop
      blockPart steps
      blockValue steps
      blockEntries steps
    | some .blockEnd => drop; tell .finish
    | _ => fail

/-- A key or value in a block, behind its indicator. -/
def blockPart : (steps : Nat) → Compose Unit
  | 0 => fail
  | steps + 1 => do
    if ← atOneOf [.key, .value, .blockEnd] then blank else node ⟨true, true⟩ steps

/-- The value of a key in a block, blank if it is left out. -/
def blockValue : (steps : Nat) → Compose Unit
  | 0 => fail
  | steps + 1 => do
    if (← peek) = some .value then
      drop
      blockPart steps
    else blank

/-- The items of a sequence in brackets. An item may be a mapping with one
entry. -/
def flowItems (isFirst : Bool) : (steps : Nat) → Compose Unit
  | 0 => fail
  | steps + 1 => do
    if (← peek) = some .closeSequence then
      drop
      tell .finish
      return
    if !isFirst then expect .flowEntry
    match ← peek with
    | some .closeSequence => drop; tell .finish
    | some .key =>
      drop
      tell (.beginMapping .none)
      flowItemKey steps
      flowPart .value [.flowEntry, .closeSequence] steps
      tell .finish
      flowItems false steps
    | _ =>
      node ⟨false, false⟩ steps
      flowItems false steps

/-- The key of an item that is a mapping. A blank one takes the token that
follows it along. -/
def flowItemKey : (steps : Nat) → Compose Unit
  | 0 => fail
  | steps + 1 => do
    if ← atOneOf [.value, .flowEntry, .closeSequence] then
      drop
      blank
    else node ⟨false, false⟩ steps

/-- A key or value behind its indicator, blank if it is left out. -/
def flowPart (indicator : Token) (ends : List Token) : (steps : Nat) → Compose Unit
  | 0 => fail
  | steps + 1 => do
    if (← peek) = some indicator then
      drop
      if ← atOneOf ends then blank else node ⟨false, false⟩ steps
    else blank

/-- The entries of a mapping in brackets. An entry may be a key alone. -/
def flowEntries (isFirst : Bool) : (steps : Nat) → Compose Unit
  | 0 => fail
  | steps + 1 => do
    if (← peek) = some .closeMapping then
      drop
      tell .finish
      return
    if !isFirst then expect .flowEntry
    match ← peek with
    | some .closeMapping => drop; tell .finish
    | some .key =>
      flowPart .key [.value, .flowEntry, .closeMapping] steps
      flowPart .value [.flowEntry, .closeMapping] steps
      flowEntries false steps
    | _ =>
      node ⟨false, false⟩ steps
      -- Only the next token shows that the value is left out.
      let _ ← peek
      blank
      flowEntries false steps

end

/-! ## Documents -/

/-- What tag handles stand for without directives. -/
def standardHandles : List (String × TagBytes) :=
  [("!", tagBytes "!"), ("!!", tagBytes "tag:yaml.org,2002:")]

/-- The directives before a document. There is one version at most, and no
handle is explained twice. -/
def directives : (steps : Nat) → (hasVersion : Bool) →
    (own : List (String × TagBytes)) → Compose (List (String × TagBytes))
  | 0, _, _ => fail
  | steps + 1, hasVersion, own => do
    match ← peek with
    | some (.directive (.version major minor)) =>
      if hasVersion || major != 1 || (minor != 1 && minor != 2) then fail
      drop
      directives steps true own
    | some (.directive (.handle name beginning)) =>
      if (own.lookup name).isSome then fail
      drop
      directives steps hasVersion ((name, beginning) :: own)
    | _ => return own

/-- The content of a document behind its mark. -/
def content (steps : Nat) : Compose Unit := do
  match ← peek with
  | none | some .documentStart | some .documentEnd | some (.directive _) => blank
  | _ => node ⟨true, false⟩ steps

/-- The one document of a text, blank if there is none. -/
def document (steps : Nat) : Compose Unit := do
  match ← peek with
  | none => blank
  | some .documentStart | some (.directive _) =>
    let own ← directives steps false []
    modify fun s => { s with handles := own ++ standardHandles }
    expect .documentStart
    content steps
  | _ => node ⟨true, false⟩ steps

/-- The marks behind the last document. -/
def documentEnds : (steps : Nat) → Compose Unit
  | 0 => fail
  | steps + 1 => do
    match ← peek with
    | some .documentEnd => drop; documentEnds steps
    | some _ => fail
    | none => return

end Compose

def events (ts : Begun (List Token)) : Begun (List Event) :=
  let steps := 3 * ts.value.length + 8
  let initial : Composing :=
    ⟨ts.value, !ts.isWhole, Compose.standardHandles, [], 0, #[]⟩
  let all : Compose Unit := do
    Compose.document steps
    Compose.documentEnds steps
  let (done?, s) := all.run initial
  ⟨s.events.toList, done?.isSome⟩

end ApiBaseline.Yaml
