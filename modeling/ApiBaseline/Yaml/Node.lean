import ApiBaseline.Yaml.Event

/-!
# Nodes of a YAML document

The events of a document are put together to a tree by a machine with a stack,
which holds the open sequences and mappings, innermost first. An event adds a
node to the innermost one, opens another one or closes it. What is still open
behind the last event ends in something broken.
-/

namespace ApiBaseline.Yaml

/-- A node of a document. -/
inductive Node where
  | scalar (properties : Properties) (style : Style) (text : String)
  | sequence (properties : Properties) (items : List Node)
  | mapping (properties : Properties) (entries : List (Node × Node))
  /-- The node that an anchor's number was last given to. -/
  | alias (anchor : Nat)
  /-- The place where a text breaks off. -/
  | broken
  deriving Inhabited

/-! ## Anchors -/

/-- A node under the number of its anchor, if it has one. -/
def Node.named (n : Node) (properties : Properties) : List (Nat × Node) :=
  properties.anchor?.toList.map (·, n)

mutual

/-- The nodes with an anchor, in the order in which they begin. -/
def Node.anchored : Node → List (Nat × Node)
  | .scalar properties style text => (Node.scalar properties style text).named properties
  | .sequence properties items =>
    (Node.sequence properties items).named properties ++ itemsAnchored items
  | .mapping properties entries =>
    (Node.mapping properties entries).named properties ++ entriesAnchored entries
  | .alias _ => []
  | .broken => []

/-- The nodes with an anchor in items. -/
def itemsAnchored : List Node → List (Nat × Node)
  | [] => []
  | n :: ns => n.anchored ++ itemsAnchored ns

/-- The nodes with an anchor in entries. -/
def entriesAnchored : List (Node × Node) → List (Nat × Node)
  | [] => []
  | (k, v) :: es => k.anchored ++ v.anchored ++ entriesAnchored es

end

/-! ## Putting nodes together -/

/-- An open sequence or mapping; what it has so far is held with the last
first. -/
inductive Frame where
  | sequence (properties : Properties) (done : List Node)
  | mapping (properties : Properties) (done : List (Node × Node))
  /-- A mapping in which the value of a key comes next. -/
  | entry (properties : Properties) (done : List (Node × Node)) (key : Node)

namespace Frame

def add (f : Frame) (n : Node) : Frame :=
  match f with
  | sequence p done => sequence p (n :: done)
  | mapping p done => entry p done n
  | entry p done key => mapping p ((key, n) :: done)

def close : Frame → Node
  | sequence p done => .sequence p done.reverse
  | mapping p done => .mapping p done.reverse
  | entry p done key => .mapping p ((key, .broken) :: done).reverse

/-- The node that breaks off behind what a frame holds. -/
def breakOff (f : Frame) : Node :=
  match f with
  | sequence .. => (f.add .broken).close
  | mapping .. => ((f.add .broken).add .broken).close
  | entry .. => (((f.add .broken).add .broken).add .broken).close

end Frame

/-- What has been put together so far. -/
structure Building where
  frames : List Frame
  /-- The node of the document, when it is complete. -/
  root? : Option Node

namespace Building

/-- Nothing has been put together. -/
def initial : Building := ⟨[], none⟩

/-- Puts a node into the innermost frame. -/
def add (b : Building) (n : Node) : Building :=
  match b.frames with
  | f :: fs => { b with frames := f.add n :: fs }
  | [] => { b with root? := some n }

def push (b : Building) (f : Frame) : Building := { b with frames := f :: b.frames }

def step (b : Building) : Event → Building
  | .scalar p style text => b.add (.scalar p style text)
  | .alias anchor => b.add (.alias anchor)
  | .beginSequence p => b.push (.sequence p [])
  | .beginMapping p => b.push (.mapping p [])
  | .finish =>
    match b.frames with
    | f :: fs => { b with frames := fs }.add f.close
    | [] => b

def root (b : Building) : Node :=
  match b.root?, b.frames with
  | some n, _ => n
  | none, f :: fs => fs.foldl (fun n f => (f.add n).breakOff) f.breakOff
  | none, [] => .broken

end Building

/-! ## Documents -/

/-- A document. -/
structure Document where
  root : Node
  /-- How many events tell it. -/
  size : Nat

def Document.ofEvents (es : List Event) : Document :=
  ⟨(es.foldl Building.step Building.initial).root, es.length⟩

/-- The document that a text holds, as far as it can be told. -/
def parse (s : String) : Begun Document := (events (tokens s)).map Document.ofEvents

end ApiBaseline.Yaml
