import VerseSearch.Command
import VerseSearch.Json.Writer
import VerseSearch.Report
import VerseSearch.Source

/-! # Running commands

A command turns files into output and files.

* `CommandError`: why a command has no outcome, with `CommandError.exitCode?`.
* `Command.perform`: what a command writes, and the files after it.
* `Command.run`: the same with the errors that the command itself reports.
-/

namespace VerseSearch
set_option autoImplicit false

/-! ## Errors -/

/-- Why a command has no outcome. -/
inductive CommandError where
  | source (e : SourceError)
  | encode (e : Lexicon.EncodeError)
  | search (e : SearchError)
  deriving Repr, DecidableEq

namespace CommandError

def message : CommandError → String
  | .source e => e.message
  | .encode e => e.message
  | .search e => e.message

/-- The exit code of an error that the command itself reports: two for an error of the query, one
for an error of the data. -/
def exitCode? : CommandError → Option Nat
  | .source e => if e.isReported then some 1 else none
  | .encode (.code _) => some 1
  | .encode (.unlistedCategory _) => none
  | .search (.compile (.query _)) => some 2
  | .search (.compile (.limit _)) => none
  | .search (.numeral _) => none
  | .search (.highlight _) => some 1

end CommandError

namespace Command

/-! ## What commands write -/

/-- The words of a verse with marks around the covered ones. -/
def marked (r : VerseResult) : List Text :=
  r.words.zipIdx.map fun (word, index) =>
    if r.coveredWords.contains index then '[' :: word ++ [']'] else word

def resultLine (r : VerseResult) : Text :=
  r.location ++ '\t' :: List.intercalate [' '] (marked r) ++ ['\n']

def searchText (r : SearchResponse) : Text :=
  "pattern: ".toList ++ r.compiled.source ++ '\n' :: r.results.flatMap resultLine ++
    Text.ofNat r.results.length ++ " verses".toList ++
    (if r.truncated then " (truncated)".toList else []) ++ ['\n']

def entryLine (e : Entry) : Text :=
  Text.ofNat e.tag ++ '\t' :: e.word ++ '\t' :: e.category.toName ++ ['\n']

def entryRow (e : Entry) : Json :=
  .ofFields [
    ("tag", .ofNat e.tag), ("word", .str e.word), ("category", .str e.category.toName),
    ("searchable", .str e.searchable)]

/-- A JSON value on lines. -/
def jsonText (j : Json) : Text := j.writeIndented 0 ++ ['\n']

/-- The line that tells what has been built. -/
def builtText (output : Text) (c : Corpus Text) (l : Lexicon) : Text :=
  output ++ ": ".toList ++ Text.ofNat c.stats.books ++ " books, ".toList ++
    Text.ofNat c.stats.verses ++ " verses, ".toList ++ Text.ofNat l.size ++
    " lexicon entries\n".toList

/-! ## Running -/

variable [Pattern.CharNames] [Text.Ranking]

/-- Writes the bundle of two tables. -/
def performBuild (fs : Files) (corpusFile lexiconFile output : Text) (bookFilter : Option Text) :
    Except CommandError (Text × Files) := do
  let c ← (Source.corpus fs corpusFile bookFilter).mapError .source
  let l ← (Source.lexicon fs lexiconFile).mapError .source
  let bundle ← (Bundle.build c l).mapError .encode
  let written ← (fs.write output (Bundle.write bundle)).mapError fun e => .source (.missing e)
  return (builtText output c l, written)

/-- What a command writes, and the files after it. -/
def perform (fs : Files) : Command → Except CommandError (Text × Files)
  | .build corpusFile lexiconFile output bookFilter =>
    performBuild fs corpusFile lexiconFile output bookFilter
  | .search query bundleFile limit verbsOnly format => do
    let e ← (Source.engineOfBundle fs bundleFile limit).mapError .source
    let r ← (e.run query none verbsOnly).mapError .search
    return (match format with
      | .text => searchText r
      | .json => jsonText r.toJson, fs)
  | .lexicon pattern bundleFile verbsOnly format => do
    let e ← (Source.engineOfBundle fs bundleFile defaultMaxResults).mapError .source
    let entries ← (e.findEntries pattern verbsOnly).mapError fun e => .search (.compile e)
    return (match format with
      | .text => entries.flatMap entryLine
      | .json => jsonText (.ofList entryRow entries), fs)

/-- What a command leaves behind. -/
structure Outcome where
  exitCode : Nat
  output : Text
  errors : Text
  files : Files
  deriving Repr, DecidableEq

/-- The outcome of a command, or the error that it does not report itself. -/
def run (fs : Files) (c : Command) : Except CommandError Outcome :=
  match perform fs c with
  | .ok (output, files) => .ok ⟨0, output, [], files⟩
  | .error e =>
    match e.exitCode? with
    | some code => .ok ⟨code, [], "error: ".toList ++ e.message.toList ++ ['\n'], fs⟩
    | none => .error e

end Command

end VerseSearch
