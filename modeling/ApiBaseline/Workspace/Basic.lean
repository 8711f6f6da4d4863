import ApiBaseline.Workspace.FileStore
import ApiBaseline.Workspace.Path

/-!
# Workspaces

A workspace is a store of files that is a value: what lies at which place,
seen from a working directory. A place is the list of names that lead to it.
The directories around the working directory exist, but nothing is known to
lie in them.

A path is followed name by name, and every place on the way has to be a
directory. Writing a file never touches any other place.
-/

namespace ApiBaseline

/-- The names that lead from the working directory to a place. A place outside
of it begins with `..`, or with `/` when it is seen from the root. -/
abbrev Place := List String

/-- What lies at a place. -/
inductive Entry where
  | file (bytes : ByteArray)
  | directory

/-- The entries in and below a working directory. -/
structure Workspace where
  entries : List (Place × Entry)

namespace Place

/-- The root, the working directory or a directory around it. -/
def isAround (p : Place) : Bool := p == ["/"] || p.all (· == "..")

/-- The place is the working directory or lies below it. -/
def isInside (p : Place) : Bool := p.head? != some ".." && p.head? != some "/"

/-- The directory that a place lies in. -/
def parent (p : Place) : Place :=
  if p == ["/"] then p
  else if p.isAround then p ++ [".."]
  else p.dropLast

end Place

namespace Workspace

/-- What lies at a place, if anything does. -/
def get? (w : Workspace) (p : Place) : Option Entry :=
  if p.isAround then some .directory else w.entries.lookup p

/-- The workspace with something else at a place. -/
def put (w : Workspace) (p : Place) (e : Entry) : Workspace :=
  ⟨(p, e) :: w.entries.filter (·.1 != p)⟩

def checkDirectory (w : Workspace) (p : Place) : Except FileError Unit :=
  match w.get? p with
  | some .directory => .ok ()
  | some (.file _) => .error .notDirectory
  | none => .error .notFound

/-- The place that names lead to from another one. -/
def follow (w : Workspace) (p : Place) : List String → Except FileError Place
  | [] => .ok p
  | name :: names => do
    w.checkDirectory p
    let next :=
      if name = "" || name = "." then p
      else if name = ".." then p.parent
      else p ++ [name]
    w.follow next names

/-- Where following a path begins. -/
def origin (path : String) : Place := if Path.isAbsolute path then ["/"] else []

/-- The names of a path, which must not be empty or contain a null. -/
def names (path : String) : Except FileError (List String) :=
  if path.contains '\x00' then .error .badPath
  else if path.isEmpty then .error .notFound
  else .ok (Path.pieces path)

def locate (w : Workspace) (path : String) : Except FileError Place := do
  w.follow (origin path) (← names path)

def read (w : Workspace) (path : String) : Except FileError String := do
  let p ← w.locate path
  match w.get? p with
  | some (.file bytes) => textOfBytes bytes
  | some .directory => .error .isDirectory
  | none => .error .notFound

theorem read_of_locate {w : Workspace} {path text : String} {p : Place}
    (hlocate : w.locate path = .ok p) (hfile : w.get? p = some (.file text.toUTF8)) :
    w.read path = .ok text := by
  simp only [read, hlocate, bind, Except.bind, hfile, textOfBytes_toUTF8]

/-- The names of a path to a directory, without what its end leaves empty. -/
def dropEmptyEnd (ns : List String) : List String :=
  (ns.reverse.dropWhile (· == "")).reverse

/-- The place where a path puts a file. A path that ends with a slash or with
dots stands for a directory; in front of slashes nothing has to exist. -/
def target (w : Workspace) (path : String) : Except FileError Place := do
  let ns ← names path
  let parent ← w.follow (origin path) (dropEmptyEnd ns).dropLast
  w.checkDirectory parent
  match ns.getLast? with
  | some name =>
    if name = "" || name = "." || name = ".." then .error .isDirectory
    else .ok (parent ++ [name])
  | none => .error .isDirectory

def write (w : Workspace) (path text : String) : Except FileError Workspace := do
  let p ← w.target path
  match w.get? p with
  | some .directory => .error .isDirectory
  | _ => .ok (w.put p (.file text.toUTF8))

def isDirectory (w : Workspace) (path : String) : Bool :=
  (w.locate path >>= w.checkDirectory).isOk

/-- The workspace with a directory at a path where nothing lies yet. -/
def makeDirectory (w : Workspace) (path : String) : Except FileError Workspace := do
  let ns := dropEmptyEnd (← names path)
  let parent ← w.follow (origin path) ns.dropLast
  w.checkDirectory parent
  match ns.getLast? with
  | some name =>
    if name = "." || name = ".." then .error .alreadyExists
    else
      let p := parent ++ [name]
      if (w.get? p).isSome then .error .alreadyExists else .ok (w.put p .directory)
  | none => .error .alreadyExists

/-- A directory that may be there already. -/
def ensureDirectory (w : Workspace) (path : String) : Except FileError Workspace :=
  match w.makeDirectory path with
  | .ok w' => .ok w'
  | .error e => if w.isDirectory path then .ok w else .error e

/-- Makes the directory at a path, and first the one that it lies in if that is
missing. What has been made stays, even if the rest fails. -/
def makeDirectories (w : Workspace) : (steps : Nat) → String → Except FileError Unit × Workspace
  | 0, _ => (.error .notFound, w)
  | steps + 1, path =>
    if path.isEmpty then (.ok (), w)
    else
      match w.ensureDirectory path with
      | .ok w' => (.ok (), w')
      | .error .notFound =>
        match Path.parent? path with
        | none => (.error (.other "failed to create whole tree"), w)
        | some parent =>
          match w.makeDirectories steps parent with
          | (.error e, w') => (.error e, w')
          | (.ok (), w') =>
            match w'.ensureDirectory path with
            | .ok w'' => (.ok (), w'')
            | .error e => (.error e, w')
      | .error e => (.error e, w)

instance : FileStore (StateM Workspace) where
  read path := return (← get).read path
  makeDirectories path := modifyGet (·.makeDirectories (path.length + 1) path)
  write path text := modifyGet fun w =>
    match w.write path text with
    | .ok w' => (.ok (), w')
    | .error e => (.error e, w)

/-! ## Files by path -/

/-- The places of the directories that a place lies in. -/
def placesAbove (p : Place) : List Place :=
  (List.range p.length).tail.map fun n => p.take n

/-- The workspace with a file and the directories that it lies in. -/
def addFile (w : Workspace) (path text : String) : Workspace :=
  let p := (Path.pieces path).filter fun name => name != "" && name != "."
  let above := (placesAbove p).foldl (fun w q => w.put q .directory) w
  above.put p (.file text.toUTF8)

def ofFiles (files : List (String × String)) : Workspace :=
  files.foldl (fun w (path, text) => w.addFile path text) ⟨[]⟩

/-- The texts in and below the working directory with their paths. -/
def files (w : Workspace) : List (String × String) :=
  w.entries.filterMap fun (p, e) =>
    match e with
    | .file bytes =>
      if p.isInside then (String.fromUTF8? bytes).map fun text => ("/".intercalate p, text)
      else none
    | .directory => none

/-- The texts of a workspace that differ from those of an earlier one. -/
def changedSince (w old : Workspace) : List (String × String) :=
  w.files.filter fun f => !old.files.contains f

end Workspace

end ApiBaseline
