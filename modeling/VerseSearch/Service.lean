import VerseSearch.Service.Answers
import VerseSearch.Service.Inputs
import VerseSearch.Source

/-! # The service

The service answers requests about an engine. A request that needs the engine is refused before its
fields are looked at when there is none. The limits of queries are those of the settings `api` of the
resources below the versioned path, which need not be the settings that the service was started with.

* `Service`: settings and perhaps an engine.
* `Service.start`: the service with the engine for the data files of the settings.
* `Service.respond`: the answer to a call.
* `Service.serve`: the answer to a request that comes through a front end, and the service after it.
* `Service.handle`: the same with the front end for the requests of `Service.Request`.
-/

namespace VerseSearch
set_option autoImplicit false

/-- The service: its settings, and the engine when there is one. -/
structure Service where
  settings : Settings
  engine : Option Engine
  deriving Repr, DecidableEq

namespace Service

variable [Pattern.CharNames] [Text.Ranking]

/-! ## Starting -/

/-- The engine without verses and entries. -/
def emptyEngine (maxResults : Int) : Engine := { index := ⟨[]⟩, lexicon := ⟨[]⟩, maxResults }

def fileName (name : Option Text) : Option Text := name.filter (!·.isEmpty)

/-- The engine for the data files of settings: the bundle if there is one, else the two tables if
there are both, else an empty engine. -/
def loadEngine (s : Settings) (fs : Files) : Except SourceError Engine :=
  match fileName s.bundleFile, fileName s.corpusFile, fileName s.lexiconFile with
  | some name, _, _ => Source.engineOfBundle fs name s.maxSearchResults
  | none, some corpus, some lexicon =>
    Source.engineOfTables fs corpus lexicon s.bookFilter s.maxSearchResults
  | _, _, _ => .ok (emptyEngine s.maxSearchResults)

def start (s : Settings) (fs : Files) : Except SourceError Service :=
  (loadEngine s fs).map fun e => ⟨s, some e⟩

/-! ## Searching -/

/-- The answer to a query that is longer than the settings allow. -/
def tooLong (api : Settings) : Response :=
  .refusal 400 s!"Query too long. Maximum length is {api.maxQueryLength} characters"

/-- The answer to a query that is not compiled. Limits of the notation are told after the name of
what was tried. -/
def compileFailure (attempt : String) : CompileError → Response
  | .query e => e.toResponse
  | .limit l => .refusal 500 (attempt ++ " failed: " ++ l.message)

/-- The answer to a search without results to give. -/
def searchFailure : SearchError → Response
  | .compile e => compileFailure "Search" e
  | e => .refusal 500 ("Search failed: " ++ e.message)

def search (api : Settings) (e : Engine) (input : SearchInput) : Engine × Response :=
  if api.maxQueryLength < (input.query.length : Int) then (e, tooLong api)
  else
    let cap := input.maxResults.getD api.maxSearchResults
    match e.search input.query (some cap) input.verbsOnly with
    | (e, .ok r) => (e, .ok r.toJson)
    | (e, .error err) => (e, searchFailure err)

def compile (api : Settings) (e : Engine) (input : CompileInput) : Response :=
  if api.maxQueryLength < (input.query.length : Int) then tooLong api
  else match e.explain input.query input.verbsOnly with
    | .ok c => .ok (c.toJson input.query)
    | .error err => compileFailure "Compilation" err

/-! ## Looking up -/

def entries (e : Engine) (input : EntriesInput) : Response :=
  match e.findEntries input.pattern input.verbsOnly with
  | .ok found => .ok (entriesBody input.pattern input.limit found)
  | .error err => compileFailure "Lexicon lookup" err

def entry (e : Engine) (tag : Int) : Response :=
  match e.lexicon.get? tag with
  | some found => .ok found.toJson
  | none => .refusal 404 s!"Strong's number {tag} not found in lexicon"

def verse (debug : Bool) (e : Engine) (input : VerseInput) : Response :=
  match e.index.verse? input.book (input.chapter - 1) (input.verse - 1) with
  | none =>
    .refusal 404 ("Verse " ++ String.ofList input.book ++
      s!" {input.chapter}:{input.verse} not found")
  | some v =>
    match v.toJson with
    | .ok body => .ok body
    | .error err => .unexpected debug err.message

/-! ## Requests -/

/-- Answers with what a form asks for, or rejects the form. -/
def withInput {α : Type} (input : Form.Checked α) (answer : α → Response) : Response :=
  match input with
  | .valid a => answer a
  | .invalid problems => .rejected problems

/-- Answers a search with what a form asks for, or rejects the form. -/
def searchWith (api : Settings) (e : Engine) (input : Form.Checked SearchInput) : Engine × Response :=
  match input with
  | .valid i => search api e i
  | .invalid problems => (e, .rejected problems)

/-- The answer to a call that needs the engine, and the engine after it. -/
def respondWith (api : Settings) (debug : Bool) (e : Engine) : Call → Engine × Response
  | .search input => searchWith api e input
  | .searchBody input => searchWith api e input
  | .compile input => (e, withInput input (compile api e))
  | .entries input => (e, withInput input (entries e))
  | .entry tag => (e, withInput tag (entry e))
  | .books => (e, .ok (.ofList .str e.index.bookNames))
  | .verse input => (e, withInput input (verse debug e))
  | .metrics => (e, .ok e.stats.toMetrics)
  | _ => (e, .ok e.stats.toDetailedMetrics)

/-- The answer when an engine is needed and there is none. -/
def notLoaded : Response := .refusal 503 "Search engine is not loaded"

/-- The answer to the question whether requests are answered. -/
def readiness (s : Service) : Response :=
  match s.engine with
  | none => .answer 503 (.ofFields [("status", .ofString "not_ready")])
  | some e =>
    .ok (.ofFields [("status", .ofString "ready"), ("index_stats", e.index.stats.toJson)])

def respond (s : Service) (api : Settings) : Call → Service × Response
  | .root => (s, .ok s.settings.toWelcome)
  | .about => (s, .ok s.settings.toAbout)
  | .health =>
    let parts := s.engine.elim Health.noParts Health.ofEngine
    (s, .ok (parts.toJson api.appVersion))
  | .ready => (s, s.readiness)
  | .live => (s, .ok (.ofFields [("status", .ofString "alive")]))
  | c =>
    match s.engine with
    | none => (s, notLoaded)
    | some e =>
      let (e, response) := respondWith api s.settings.debug e c
      ({ s with engine := some e }, response)

/-- The answer to a request that comes through a front end, and the service after it. -/
def serve {ρ : Type} (front : Frontend ρ) (s : Service) (r : ρ)
    (api : Settings := Settings.standard) : Service × Response :=
  match front r with
  | .call c => s.respond api c
  | .notFound => (s, .refusal 404 "Not Found")
  | .wrongMethod => (s, .refusal 405 "Method Not Allowed")

def handle (s : Service) (r : Request) (api : Settings := Settings.standard) : Service × Response :=
  s.serve Request.route r api

end Service

end VerseSearch
