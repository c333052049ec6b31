import VerseSearch.Command.Run
import VerseSearch.Settings.Environment

/-! # The command line

The commands run on the files that they name. Settings come from the environment and from the file
`.env`.
-/

namespace VerseSearch.Main
set_option autoImplicit false

/-- The names of the settings, as environment variables have them. -/
def variableNames : List String :=
  ["APP_NAME", "APP_VERSION", "DEBUG", "HOST", "PORT", "WORKERS", "BUNDLE_FILE", "CORPUS_FILE",
   "LEXICON_FILE", "BOOK_FILTER", "MAX_SEARCH_RESULTS", "MAX_QUERY_LENGTH", "LOG_LEVEL",
   "LOG_FORMAT", "CORS_ORIGINS"]

/-- The environment variables for settings that are set. -/
def environment : IO (List (Text × Text)) :=
  variableNames.filterMapM fun name => do
    return (← IO.getEnv name).map fun value => (name.toList, value.toList)

def contentOf (name : Text) : IO (Option Text) := do
  match ← (IO.FS.readFile (String.ofList name)).toBaseIO with
  | .ok content => return some content.toList
  | .error _ => return none

/-- The files that a command reads, and the directory that it writes to. -/
def filesOf (c : Command) : IO Files := do
  let entries ← c.inputs.filterMapM fun name => do
    return (← contentOf name).map (Files.normalize name, ·)
  return ⟨entries, c.output?.toList.map Files.directoryOf⟩

/-- Writes the file that a command leaves behind. -/
def writeOutput (c : Command) (fs : Files) : IO Unit := do
  let some name := c.output? | return
  let some content := fs.content? name | return
  IO.FS.writeFile (String.ofList name) (String.ofList content)

def runCommand (c : Command) : IO UInt32 := do
  match c.run (← filesOf c) with
  | .error e =>
    IO.eprintln e.message
    return 1
  | .ok o =>
    if o.exitCode = 0 then writeOutput c o.files
    IO.print (String.ofList o.output)
    IO.eprint (String.ofList o.errors)
    return o.exitCode.toUInt32

def runArguments (s : Settings) (args : List String) : IO UInt32 := do
  match Command.parse s (args.map String.toList) with
  | .error .help =>
    IO.print Command.help
    return 0
  | .error .misuse =>
    IO.eprint Command.help
    return 2
  | .ok c => runCommand c

/-- The program: the settings from the environment, then the command of the arguments. -/
def run (args : List String) : IO UInt32 := do
  match Settings.ofEnvironment (← environment) (← contentOf ".env".toList) with
  | .error (.unreadableList origin) =>
    IO.eprintln origin.unreadableMessage
    return 1
  | .error (.invalid problems) =>
    for p in problems do
      IO.eprintln (String.ofList ((Form.Problem.toJson p).write Json.spaced))
    return 1
  | .ok s => runArguments s args

end VerseSearch.Main

def main (args : List String) : IO UInt32 := VerseSearch.Main.run args
