import ApiBaseline.Command.Run

/-!
# The program

Runs the command that the arguments stand for on the files of the system. The
exit code is 0 unless the command fails or the arguments are no command. It is 101
when the program ends inside of the command.
-/

namespace ApiBaseline

/-- The cause of a system error. -/
def fileError : IO.Error → FileError
  | .noFileOrDirectory .. | .noSuchThing .. => .notFound
  | .alreadyExists .. => .alreadyExists
  | .inappropriateType .. => .isDirectory
  | e => .other (toString e)

def attempt {α : Type} (action : IO α) : IO (Except FileError α) := do
  try
    return .ok (← action)
  catch e =>
    return .error (fileError e)

instance : FileStore IO where
  read path := return (← attempt (IO.FS.readBinFile path)).bind textOfBytes
  makeDirectories path := attempt (IO.FS.createDirAll path)
  write path text := attempt (IO.FS.writeFile path text)

/-- What is shown to who asks for help or gives no command. -/
def usageText : String :=
  "\n".intercalate
    ["Generate and compare API baselines", "", "Usage:",
      "  apicheck generate --module <MODULE> [--out <OUT>] [--config <CONFIG>]",
      "    [--public-only] [--exclude-namespace <PREFIX>]...",
      "  apicheck compare <OLD> <NEW> [--fail-on-breaking]", ""]

/-- Runs the command that words stand for and shows how it ends. -/
def runWords (words : List String) : IO UInt32 := do
  match Command.parse words with
  | .error .requested =>
    IO.print usageText
    return 0
  | .error .mistaken =>
    IO.eprint usageText
    return 1
  | .ok command =>
    let environment ← IO.getEnv "APICHECK_CONFIG"
    let outcome : Outcome ← command.run environment
    IO.print outcome.output
    match outcome.failure with
    | none => return 0
    | some e =>
      IO.eprintln e.message
      return if e.isCrash then 101 else 1

end ApiBaseline

/-- The program. -/
def main (args : List String) : IO UInt32 := ApiBaseline.runWords args
