/-!
# Arguments

A command line is a list of words. An option has a long name, a short name or
both, and either is a flag or takes a value: as the next word, behind an equals
sign, or right behind a short name. A word that looks like an option is never
taken for a value; two dashes end the options, and what follows is positional
whatever it looks like. Words are handled from left to right and the first one
that is out of place decides, a request for help included.
-/

namespace ApiBaseline

/-- Why words are no command to run. -/
inductive Usage where
  /-- They ask for help or for the version. -/
  | requested
  /-- They break the rules. -/
  | mistaken
  deriving DecidableEq, Repr

/-- What an option does to the settings of a command. -/
inductive Effect (α : Type) where
  /-- It asks for help or for the version. -/
  | inform
  | flag (set : α → Except Usage α)
  | value (set : α → String → Except Usage α)

/-- The options and positional arguments of a command. -/
structure Grammar (α : Type) where
  long : String → Option (Effect α)
  short : Char → Option (Effect α)
  positional : α → String → Except Usage α

namespace Grammar

variable {α : Type}

/-- A word that looks like options. A lone dash does not. -/
def looksLikeOption (word : String) : Bool :=
  match word.toList with
  | '-' :: _ :: _ => true
  | _ => false

/-- The name of a long option, and the value behind its equals sign. -/
def splitLong (cs : List Char) : String × Option String :=
  let name := cs.takeWhile (· ≠ '=')
  match cs.dropWhile (· ≠ '=') with
  | [] => (String.ofList name, none)
  | _ :: value => (String.ofList name, some (String.ofList value))

/-- What a word of options leads to: new settings, or an option that waits for
its value. -/
inductive Step (α : Type) where
  | done (settings : α)
  | pending (set : String → Except Usage α)

def stepLong (g : Grammar α) (a : α) (cs : List Char) : Except Usage (Step α) :=
  match splitLong cs with
  | (name, attached) =>
    match g.long name, attached with
    | none, _ => .error .mistaken
    | some .inform, none => .error .requested
    | some (.flag set), none => (set a).map .done
    | some (.value set), none => .ok (.pending (set a))
    | some (.value set), some value => (set a value).map .done
    | some _, some _ => .error .mistaken

/-- Short options in one word; a value ends it. -/
def stepShort (g : Grammar α) (a : α) : List Char → Except Usage (Step α)
  | [] => .ok (.done a)
  | c :: cs =>
    match g.short c with
    | none => .error .mistaken
    | some .inform => .error .requested
    | some (.flag set) => do
      let a' ← set a
      stepShort g a' cs
    | some (.value set) =>
      match cs with
      | [] => .ok (.pending (set a))
      | '=' :: value => (set a (String.ofList value)).map .done
      | value => (set a (String.ofList value)).map .done

def step (g : Grammar α) (a : α) (word : String) : Except Usage (Step α) :=
  match word.toList with
  | '-' :: '-' :: cs => g.stepLong a cs
  | '-' :: c :: cs => g.stepShort a (c :: cs)
  | _ => (g.positional a word).map .done

/-- The settings after some words. -/
def run (g : Grammar α) (a : α) : List String → Except Usage α
  | [] => .ok a
  | "--" :: words => words.foldlM g.positional a
  | word :: words =>
    match g.step a word with
    | .error usage => .error usage
    | .ok (.done a') => g.run a' words
    | .ok (.pending set) =>
      match words with
      | [] => .error .mistaken
      | value :: rest =>
        if looksLikeOption value then .error .mistaken
        else
          match set value with
          | .ok a' => g.run a' rest
          | .error usage => .error usage

end Grammar

end ApiBaseline
