import ApiBaseline.Command.Basic
import ApiBaseline.Diff
import ApiBaseline.Generate
import ApiBaseline.Schema.Document
import ApiBaseline.Schema.Manifest
import ApiBaseline.Schema.Settings
import ApiBaseline.Workspace.FileStore
import ApiBaseline.Workspace.Path

/-!
# Running commands

A command reads files, may write one, and ends with what it prints and, if it
fails, with the reason. Everything is read and computed before anything is
written, so a command that fails on its way leaves all files as they are.
-/

namespace ApiBaseline

/-- Why a command fails. -/
inductive CommandError where
  /-- A file cannot be read or written. -/
  | file (path : String) (error : FileError)
  /-- A file does not hold what it should. -/
  | malformed (path : String) (fault : Schema.Fault)
  /-- The module has something that a document cannot describe. -/
  | generation (path : String) (error : ClassifyError)
  /-- Something was removed between two documents. -/
  | breaking (old new : String)
  deriving DecidableEq, Repr

def CommandError.message : CommandError → String
  | file path e => s!"IO error on {path}: {e.message}"
  | malformed path _ => s!"failed to parse {path}"
  | generation path e => s!"failed to generate baseline for {path}: {e.message}"
  | breaking old new => s!"breaking API changes between {old} and {new}"

/-- The program ends where the error occurs, and the command returns no error. -/
def CommandError.isCrash : CommandError → Bool
  | malformed _ fault => fault.isCrash
  | _ => false

/-- How a command ends: what it has printed, and why it failed if it did. -/
structure Outcome where
  output : String
  failure : Option CommandError
  deriving DecidableEq, Repr

namespace Command

variable {m : Type → Type} [Monad m] [FileStore m]

/-- Steps of a command, which end at the first failure. -/
abbrev Steps (m : Type → Type) (α : Type) := ExceptT CommandError m α

/-- A step that uses the file at a path. -/
def onFile {α : Type} (path : String) (action : m (Except FileError α)) : Steps m α :=
  ExceptT.mk do return (← action).mapError (.file path)

def load {α : Type} (format : TextFormat) (read : Schema.Reader α) (path : String) :
    Steps m α := do
  let text ← onFile path (FileStore.read path)
  liftExcept ((Schema.readText format read text).mapError (.malformed path))
where
  /-- A result of no effect. -/
  liftExcept {β : Type} (r : Except CommandError β) : Steps m β := ExceptT.mk (pure r)

/-! ## Generating -/

/-- The settings in a file, or the standard ones without a file. -/
def loadSettings : Option String → Steps m Settings
  | some path => load .yaml Schema.readSettings path
  | none => return Settings.default

def manifestFormat (path : String) : TextFormat :=
  if Path.isJson path then .json else .yaml

/-- The document that options ask for. The file named in the environment holds
the settings unless the options name one. -/
def document (environment : Option String) (o : GenerateOptions) : Steps m Document := do
  let settings ← loadSettings (o.config.or environment)
  let manifest ← load (manifestFormat o.module) Schema.readManifest o.module
  let filter := Filter.ofSettings (settings.withOverrides o.publicOnly o.excludeNamespaces)
  ExceptT.mk (pure (((Module.ofManifest manifest).generate filter).mapError
    (.generation o.module)))

/-- Keeps a document in a file. The directory that the file lies in is made
first if it is missing. -/
def save (path : String) (d : Document) : Steps m Unit := do
  match (Path.parent? path).filter (!·.isEmpty) with
  | some parent => onFile parent (FileStore.makeDirectories parent)
  | none => pure ()
  onFile path (FileStore.write path d.toText)

/-- What is printed about a document that is kept in a file. -/
def savedText (path : String) (d : Document) : String :=
  s!"Baseline written to {path}: {d.types.length} types\n"

/-- Generates the document of a module. -/
def generateSteps (environment : Option String) (o : GenerateOptions) : Steps m String := do
  let d ← document environment o
  match o.out with
  | some path =>
    save path d
    return savedText path d
  | none => return d.toText

/-! ## Comparing -/

/-- The difference of the documents in two files. -/
def difference (o : CompareOptions) : Steps m Diff := do
  let old ← load .json Schema.readDocument o.old
  let new ← load .json Schema.readDocument o.new
  return Diff.compare old new

/-- How a comparison with a result ends. -/
def comparisonOutcome (o : CompareOptions) (d : Diff) : Outcome where
  output := d.report ++ "\n"
  failure := if o.failOnBreaking && d.isBreaking then some (.breaking o.old o.new) else none

/-! ## Commands -/

def run (environment : Option String) : Command → m Outcome
  | .generate o => do
    match ← (generateSteps environment o).run with
    | .ok output => return ⟨output, none⟩
    | .error e => return ⟨"", some e⟩
  | .compare o => do
    match ← (difference o).run with
    | .ok d => return comparisonOutcome o d
    | .error e => return ⟨"", some e⟩

end Command

end ApiBaseline
