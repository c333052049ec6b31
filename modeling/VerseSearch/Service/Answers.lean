import VerseSearch.Json.Binary64
import VerseSearch.Report
import VerseSearch.Service.Frontend
import VerseSearch.Settings

/-! # The bodies of answers

* `QueryError.kind`, `QueryError.toResponse`: the answer to a query with an error.
* `Settings.toWelcome`, `Settings.toAbout`: what the service says of itself.
* `Health`: whether the service and its parts work.
* `Counters.toMetrics`: the counts of searches with the share of failed ones in percent.
-/

namespace VerseSearch
set_option autoImplicit false

/-! ## Errors -/

def QueryError.kind : QueryError → String
  | .empty => "EmptyQuery"
  | .invalidBlock _ _ => "InvalidPattern"
  | .invalidPattern _ => "InvalidPattern"
  | .invalidLexiconPattern _ _ => "InvalidPattern"
  | .noMatchingEntries _ _ => "NoMatchingEntries"

/-- More about an error. -/
def QueryError.details : QueryError → Json
  | .noMatchingEntries block suggestions =>
    .ofFields [("block", .str block), ("suggestions", .ofList .str suggestions)]
  | _ => .null

def errorBody (kind message : String) (details : Json) : Json :=
  .ofFields [
    ("error", .ofString kind), ("message", .ofString message), ("details", details),
    ("request_id", .null)]

def QueryError.toResponse (e : QueryError) : Response :=
  .answer 400 (errorBody e.kind e.message e.details)

/-- The answer when something unexpected has happened. Its cause is told if `debug` is set. -/
def Response.unexpected (debug : Bool) (cause : String) : Response :=
  .answer 500 (errorBody "Internal Server Error" "An unexpected error occurred"
    (if debug then .ofFields [("exception", .ofString cause)] else .null))

/-! ## The service -/

/-- What the service says of itself in one sentence. -/
def description : String := "Extended regular expression search over the Hebrew Bible"

/-- The body of the answer at the root. -/
def Settings.toWelcome (s : Settings) : Json :=
  .ofFields [
    ("name", .str s.appName), ("version", .str s.appVersion),
    ("description", .ofString description), ("docs_url", .ofString "/docs"),
    ("health_url", .ofString "/api/v1/health"), ("status", .ofString "running")]

def resourcePaths : List (String × Json) :=
  [("search", .ofString "/api/v1/search?q=query"), ("compile", .ofString "/api/v1/compile"),
   ("lexicon_entry", .ofString "/api/v1/lexicon/\x7btag\x7d"),
   ("lexicon_search", .ofString "/api/v1/lexicon?pattern=pattern"),
   ("books", .ofString "/api/v1/books"),
   ("verse", .ofString "/api/v1/verses/\x7bbook\x7d/\x7bchapter\x7d/\x7bverse\x7d"),
   ("health", .ofString "/api/v1/health"), ("metrics", .ofString "/api/v1/metrics")]

def querySigns : List (String × Json) :=
  [("<...>", .ofString "Strong's numbers, or lexicon words matching the inner pattern"),
   ("@", .ofString "zero or more of the letters אהוי"),
   ("#", .ofString "any single letter"),
   ("ש", .ofString "either shin or sin"),
   ("2xy2", .ofString "verbs derived from the two-letter root xy")]

def Settings.toAbout (s : Settings) : Json :=
  .ofFields [
    ("name", .str s.appName), ("version", .str s.appVersion),
    ("description", .ofString description), ("endpoints", .ofFields resourcePaths),
    ("query_syntax", .ofFields querySigns),
    ("limits", .ofFields [
      ("max_query_length", .int s.maxQueryLength),
      ("max_search_results", .int s.maxSearchResults)])]

/-! ## Health -/

/-- Whether something works. -/
inductive Health where
  | healthy
  | degraded
  | unhealthy
  deriving Repr, DecidableEq

namespace Health

def name : Health → String
  | .healthy => "healthy"
  | .degraded => "degraded"
  | .unhealthy => "unhealthy"

/-- The state of the whole: that of the worst part. -/
def worst : List Health → Health
  | [] => .healthy
  | h :: rest =>
    match h, worst rest with
    | .unhealthy, _ => .unhealthy
    | _, .unhealthy => .unhealthy
    | .degraded, _ => .degraded
    | _, h => h

structure Parts where
  engine : Health
  index : Health
  lexicon : Health
  deriving Repr, DecidableEq

/-- The parts of a service without engine. -/
def noParts : Parts := ⟨.unhealthy, .unhealthy, .unhealthy⟩

/-- A part that holds something, or nothing. -/
def ofSize (size : Nat) : Health := if size = 0 then .degraded else .healthy

/-- The parts of an engine. The engine works if it compiles a letter. -/
def ofEngine [Pattern.CharNames] [Text.Ranking] (e : Engine) : Parts where
  engine := if (e.explain ['א'] false).isOk then .healthy else .unhealthy
  index := ofSize e.index.verses.length
  lexicon := ofSize e.lexicon.size

/-- The body of the answer about the health of a service of some version. -/
def Parts.toJson (p : Parts) (version : Text) : Json :=
  .ofFields [
    ("status", .ofString (worst [p.engine, p.index, p.lexicon]).name), ("version", .str version),
    ("dependencies", .ofFields [
      ("search_engine", .ofString p.engine.name), ("verse_index", .ofString p.index.name),
      ("lexicon", .ofString p.lexicon.name)])]

end Health

/-! ## Counts -/

/-- The body of the answer with the main counts. The share of failed searches is in percent. -/
def EngineStats.toMetrics (s : EngineStats) : Json :=
  .ofFields [
    ("total_queries", .ofNat s.counters.total), ("failed_queries", .ofNat s.counters.failed),
    ("error_rate", .real (.ofRat (100 * s.counters.errorRate))),
    ("total_verses", .ofNat s.index.verses), ("total_lexicon_entries", .ofNat s.lexicon.total)]

/-- The body of the answer with all counts. -/
def EngineStats.toDetailedMetrics (s : EngineStats) : Json :=
  .ofFields [
    ("query_metrics", .ofFields s.counters.fields), ("index_metrics", s.index.toJson),
    ("lexicon_metrics", s.lexicon.toJson)]

/-! ## Verses and entries -/

/-- Entries that a pattern finds, of which the first `limit` are given. -/
def entriesBody (pattern : Text) (limit : Int) (entries : List Entry) : Json :=
  .ofFields [
    ("pattern", .str pattern), ("total_results", .ofNat entries.length),
    ("truncated", .bool (limit < (entries.length : Int))),
    ("results", .ofList Entry.toJson (entries.take limit.toNat))]

def IndexedVerse.toJson (v : IndexedVerse) : Except Numeral.RangeError Json := do
  let chapter ← Numeral.ofIndex v.chapter
  let verse ← Numeral.ofIndex v.verse
  let location ← v.location
  return .ofFields [
    ("book", .str v.book), ("chapter", .str chapter), ("verse", .str verse),
    ("location", .str location), ("words", .ofList .str v.words), ("tags", .ofList .int v.tags),
    ("text", .str v.text)]

end VerseSearch
