import VerseSearch.Command.Arguments
import VerseSearch.Settings

/-! # Commands

* `Command`: building a bundle, searching verses and finding entries.
* `Command.parse`: the command of arguments; the settings give the values of absent options.
* `Command.inputs`, `Command.output?`: the names of the files that a command reads and writes.
-/

namespace VerseSearch
set_option autoImplicit false

/-- How the outcome of a command is written. -/
inductive OutputFormat where
  | text
  | json
  deriving Repr, DecidableEq

inductive Command where
  /-- Writes the bundle of two tables to a file. -/
  | build (corpusFile lexiconFile output : Text) (bookFilter : Option Text)
  | search (query bundleFile : Text) (limit : Int) (verbsOnly : Bool) (format : OutputFormat)
  /-- Finds entries in the lexicon of a bundle. -/
  | lexicon (pattern bundleFile : Text) (verbsOnly : Bool) (format : OutputFormat)
  deriving Repr, DecidableEq

namespace Command

/-! ## Grammars -/

def formatOf? (t : Text) : Option OutputFormat :=
  if t = "text".toList then some .text else if t = "json".toList then some .json else none

/-- The values that options admit. -/
def admits (name : String) (value : Text) : Bool :=
  if name = "limit" then (Text.readInt value).isOk
  else if name = "format" then (formatOf? value).isSome
  else true

/-- The arguments before the name of a command. -/
def outerGrammar : Arguments.Grammar := ⟨[], [], false, admits⟩

def buildGrammar : Arguments.Grammar :=
  ⟨["corpus", "lexicon", "output", "books"], [], false, admits⟩

def searchGrammar : Arguments.Grammar :=
  ⟨["bundle", "limit", "format"], ["verbs-only"], true, admits⟩

def lexiconGrammar : Arguments.Grammar := ⟨["bundle", "format"], ["verbs-only"], true, admits⟩

/-! ## Reading arguments -/

/-- The value of an option that has none in the settings. -/
def required (given : Option Text) (default : Option Text) : Except Arguments.Ending Text :=
  match given, default.filter (!·.isEmpty) with
  | some value, _ => .ok value
  | none, some value => .ok value
  | none, none => .error .misuse

/-- Refuses arguments without a place. -/
def complete (c : Arguments.Collected) : Except Arguments.Ending Unit :=
  if c.surplus then .error .misuse else .ok ()

def format (c : Arguments.Collected) : OutputFormat :=
  ((c.value? "format").bind formatOf?).getD .text

def limit (s : Settings) (c : Arguments.Collected) : Int :=
  match (c.value? "limit").map Text.readInt with
  | some (.ok n) => n
  | _ => s.maxSearchResults

/-- The name of the bundle to write if no other is given. -/
def standardBundle : Text := "bible-bundle.json".toList

def parseBuild (s : Settings) (args : List Text) : Except Arguments.Ending Command := do
  let c ← Arguments.collect buildGrammar args
  let corpusFile ← required (c.value? "corpus") s.corpusFile
  let lexiconFile ← required (c.value? "lexicon") s.lexiconFile
  complete c
  let output := (c.value? "output" <|> s.bundleFile.filter (!·.isEmpty)).getD standardBundle
  return .build corpusFile lexiconFile output (c.value? "books" <|> s.bookFilter)

def parseSearch (s : Settings) (args : List Text) : Except Arguments.Ending Command := do
  let c ← Arguments.collect searchGrammar args
  let query ← required c.operand none
  let bundleFile ← required (c.value? "bundle") s.bundleFile
  complete c
  return .search query bundleFile (limit s c) (c.flags.contains "verbs-only") (format c)

def parseLexicon (s : Settings) (args : List Text) : Except Arguments.Ending Command := do
  let c ← Arguments.collect lexiconGrammar args
  let pattern ← required c.operand none
  let bundleFile ← required (c.value? "bundle") s.bundleFile
  complete c
  return .lexicon pattern bundleFile (c.flags.contains "verbs-only") (format c)

def parseNamed (s : Settings) (name : Text) (args : List Text) :
    Except Arguments.Ending Command :=
  if name = "build".toList then parseBuild s args
  else if name = "search".toList then parseSearch s args
  else if name = "lexicon".toList then parseLexicon s args
  else .error .misuse

/-- The command of arguments. An unknown option in front of the name is refused after the arguments
of the command have been looked at. -/
def parse (s : Settings) : List Text → Except Arguments.Ending Command
  | [] => .error .misuse
  | t :: rest =>
    match Arguments.token outerGrammar t with
    | .word name => parseNamed s name rest
    | .shortHelp => .error .help
    | .option _ none => .error .help
    | .unknown =>
      match parse s rest with
      | .error e => .error e
      | .ok _ => .error .misuse
    | _ => .error .misuse

def inputs : Command → List Text
  | .build corpusFile lexiconFile _ _ => [corpusFile, lexiconFile]
  | .search _ bundleFile _ _ _ => [bundleFile]
  | .lexicon _ bundleFile _ _ => [bundleFile]

def output? : Command → Option Text
  | .build _ _ output _ => some output
  | _ => none

/-! ## Help -/

def help : String :=
  "usage:\n" ++
  "  build --corpus FILE --lexicon FILE [--output FILE] [--books PATTERN]\n" ++
  "      Encode the corpus and the lexicon table into a bundle.\n" ++
  "  search QUERY --bundle FILE [--limit N] [--verbs-only] [--format text|json]\n" ++
  "      Search the verses of a bundle.\n" ++
  "  lexicon PATTERN --bundle FILE [--verbs-only] [--format text|json]\n" ++
  "      Find the lexicon entries of a number or a word.\n"

end Command

end VerseSearch
