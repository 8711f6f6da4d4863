import ApiBaseline.Command.Arguments

/-!
# Commands

There are two commands: one generates the document of a module, the other
compares two documents. Both take paths, which must not be empty.
-/

namespace ApiBaseline

/-- What to generate. -/
structure GenerateOptions where
  /-- The path of the manifest. -/
  «module» : String
  /-- Where the document goes, if it is not printed. -/
  out : Option String
  /-- The path of the settings. -/
  config : Option String
  publicOnly : Bool
  excludeNamespaces : List String
  deriving DecidableEq, Repr

/-- What to compare. -/
structure CompareOptions where
  /-- The path of the earlier document. -/
  old : String
  /-- The path of the later document. -/
  new : String
  /-- Removals are a failure. -/
  failOnBreaking : Bool
  deriving DecidableEq, Repr

/-- A command with its options. -/
inductive Command where
  | generate (options : GenerateOptions)
  | compare (options : CompareOptions)
  deriving DecidableEq, Repr

namespace Command

def path (word : String) : Except Usage String :=
  if word.isEmpty then .error .mistaken else .ok word

def pathOnce (given : Option String) (word : String) : Except Usage (Option String) :=
  if given.isSome then .error .mistaken else (path word).map some

def flagOnce (given : Bool) : Except Usage Bool :=
  if given then .error .mistaken else .ok true

/-! ## Generating -/

/-- What has been given to generate. -/
structure GenerateWords where
  «module» : Option String
  out : Option String
  config : Option String
  publicOnly : Bool
  excludeNamespaces : List String

def moduleOption : Effect GenerateWords :=
  .value fun g word => do return { g with «module» := ← pathOnce g.module word }

/-- The option for the place of the document. -/
def outOption : Effect GenerateWords :=
  .value fun g word => do return { g with out := ← pathOnce g.out word }

/-- The options of the command that generates. -/
def generateGrammar : Grammar GenerateWords where
  long
    | "module" => some moduleOption
    | "out" => some outOption
    | "config" => some (.value fun g word => do
        return { g with config := ← pathOnce g.config word })
    | "public-only" => some (.flag fun g => do
        return { g with publicOnly := ← flagOnce g.publicOnly })
    | "exclude-namespace" => some (.value fun g word =>
        .ok { g with excludeNamespaces := g.excludeNamespaces ++ [word] })
    | "help" => some .inform
    | _ => none
  short
    | 'm' => some moduleOption
    | 'o' => some outOption
    | 'h' => some .inform
    | _ => none
  positional _ _ := .error .mistaken

/-- The options of the words behind the command; there has to be a manifest. -/
def parseGenerate (words : List String) : Except Usage GenerateOptions := do
  let g ← generateGrammar.run ⟨none, none, none, false, []⟩ words
  match g.module with
  | some m => return ⟨m, g.out, g.config, g.publicOnly, g.excludeNamespaces⟩
  | none => .error .mistaken

/-! ## Comparing -/

/-- What has been given to compare. -/
structure CompareWords where
  paths : List String
  failOnBreaking : Bool

/-- The options of the command that compares. -/
def compareGrammar : Grammar CompareWords where
  long
    | "fail-on-breaking" => some (.flag fun c => do
        return { c with failOnBreaking := ← flagOnce c.failOnBreaking })
    | "help" => some .inform
    | _ => none
  short
    | 'h' => some .inform
    | _ => none
  positional c word := do
    if 2 ≤ c.paths.length then .error .mistaken
    else return { c with paths := c.paths ++ [← path word] }

/-- The options of the words behind the command; there have to be two paths. -/
def parseCompare (words : List String) : Except Usage CompareOptions := do
  let c ← compareGrammar.run ⟨[], false⟩ words
  match c.paths with
  | [old, new] => return ⟨old, new, c.failOnBreaking⟩
  | _ => .error .mistaken

/-! ## Choosing -/

/-- The words behind a request for help name at most one command. -/
def helpUsage : List String → Usage
  | [] => .requested
  | [name] => if ["generate", "compare", "help"].contains name then .requested else .mistaken
  | _ => .mistaken

/-- A word that asks for help or the version without a command. -/
def asksForInformation (word : String) : Bool :=
  match word.toList with
  | '-' :: '-' :: name => name == "help".toList || name == "version".toList
  | '-' :: c :: _ => c == 'h' || c == 'V'
  | _ => false

def parse : List String → Except Usage Command
  | "generate" :: words => (parseGenerate words).map .generate
  | "compare" :: words => (parseCompare words).map .compare
  | "help" :: words => .error (helpUsage words)
  | word :: _ => .error (if asksForInformation word then .requested else .mistaken)
  | [] => .error .mistaken

end Command

end ApiBaseline
