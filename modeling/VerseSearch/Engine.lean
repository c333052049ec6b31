import VerseSearch.Highlight
import VerseSearch.Query.Compile
import VerseSearch.VerseIndex

/-! # The search engine

* `Engine`: an index, a lexicon, a default for the number of results, and counts of searches.
* `matchVerse`: the result of a query in one verse.
* `searchVerses`: the results in all verses, up to a number of them.
* `Engine.search`: a search, which is counted.
* `Engine.explain`: a query compiled without a search.
* `Engine.stats`: the counts.
-/

namespace VerseSearch
set_option autoImplicit false

/-! ## Results -/

structure VerseResult where
  book : Text
  chapter : Text
  verse : Text
  chapterIndex : Nat
  verseIndex : Nat
  location : Text
  words : List Text
  tags : List Int
  /-- The words that the matches cover, in order. -/
  coveredWords : List Nat
  /-- The parts of the search string that match, in order. -/
  matchedText : List Text
  deriving Repr, DecidableEq

structure SearchResponse where
  query : Text
  compiled : Query.Compiled
  results : List VerseResult
  /-- Whether there are more results than were asked for. -/
  truncated : Bool
  deriving Repr, DecidableEq

/-- Why a search has no results to give. -/
inductive SearchError where
  | compile (e : CompileError)
  /-- A verse with matches has a place without numeral. -/
  | numeral (e : Numeral.RangeError)
  | highlight (e : Highlight.RangeError)
  deriving Repr, DecidableEq

def SearchError.message : SearchError → String
  | .compile e => e.message
  | .numeral e => e.message
  | .highlight e => e.message

/-! ## Searching -/

def nonemptyMatches (p : Pattern) (s : Text) : List (Nat × Nat) :=
  (p.findAll s).filter fun (a, b) => a < b

/-- The result of a query in a verse, if it has a match that is not empty. -/
def matchVerse (p : Pattern) (v : IndexedVerse) : Except SearchError (Option VerseResult) :=
  match nonemptyMatches p v.searchString with
  | [] => .ok none
  | spans =>
    let bounds : List (Int × Int) := spans.map fun (a, b) => (a, b)
    match Highlight.coveredWords v.searchString bounds with
    | .error e => .error (.highlight e)
    | .ok covered =>
      match Numeral.ofIndex v.chapter, Numeral.ofIndex v.verse, v.location with
      | .error e, _, _ => .error (.numeral e)
      | _, .error e, _ => .error (.numeral e)
      | _, _, .error e => .error (.numeral e)
      | .ok chapter, .ok verse, .ok location =>
        .ok (some {
          book := v.book
          chapter
          verse
          chapterIndex := v.chapter
          verseIndex := v.verse
          location
          words := v.words
          tags := v.tags
          coveredWords := covered
          matchedText := spans.map fun (a, b) => Pattern.slice v.searchString a b })

/-- The results in verses after the results `done`, the last of which comes first, and whether
there are more than `cap`. Verses are looked at up to the first result that is one too many. -/
def searchVerses (p : Pattern) (cap : Int) (done : List VerseResult) :
    List IndexedVerse → Except SearchError (List VerseResult × Bool)
  | [] => .ok (done.reverse, false)
  | v :: rest =>
    match matchVerse p v with
    | .error e => .error e
    | .ok none => searchVerses p cap done rest
    | .ok (some result) =>
      -- the result that is one too many is not kept, but it ends the search
      if cap ≤ (done.length : Int) then .ok (done.reverse, true)
      else searchVerses p cap (result :: done) rest

/-! ## The engine -/

structure Counters where
  total : Nat := 0
  failed : Nat := 0
  matched : Nat := 0
  unmatched : Nat := 0
  truncated : Nat := 0
  deriving Repr, DecidableEq

/-- The share of the searches that failed; zero if there were none. -/
def Counters.errorRate (c : Counters) : Rat := mkRat c.failed c.total

/-- The number of results that a search gives if no other number is asked for. -/
def defaultMaxResults : Int := 10000

/-- An index and a lexicon to search, with counts of the searches made. -/
structure Engine where
  index : VerseIndex
  lexicon : Lexicon
  maxResults : Int := defaultMaxResults
  counters : Counters := {}
  deriving Repr, DecidableEq

structure EngineStats where
  counters : Counters
  index : IndexStats
  lexicon : LexiconStats
  deriving Repr, DecidableEq

namespace Engine

variable [Pattern.CharNames] [Text.Ranking]

def ofCorpus (c : Corpus Text) (l : Lexicon) (maxResults : Int := defaultMaxResults) :
    Except Hebrew.InvalidCharacter Engine :=
  (VerseIndex.ofCorpus c).map fun index => { index, lexicon := l, maxResults }

/-- The results of a query, without counting the search. -/
def run (e : Engine) (query : Text) (maxResults : Option Int) (verbsOnly : Bool) :
    Except SearchError SearchResponse :=
  match Query.compile e.lexicon query verbsOnly with
  | .error err => .error (.compile err)
  | .ok compiled =>
    (searchVerses compiled.pattern (maxResults.getD e.maxResults) [] e.index.verses).map
      fun (results, truncated) => { query, compiled, results, truncated }

/-- The counts after a search with a given outcome. A search that is ended by a limit of the
notation or by a place without numeral counts in the total alone. -/
def count (c : Counters) (outcome : Except SearchError SearchResponse) : Counters :=
  let c := { c with total := c.total + 1 }
  match outcome with
  | .error (.compile (.query _)) => { c with failed := c.failed + 1 }
  | .error _ => c
  | .ok response =>
    let c :=
      if response.results.isEmpty then { c with unmatched := c.unmatched + 1 }
      else { c with matched := c.matched + 1 }
    if response.truncated then { c with truncated := c.truncated + 1 } else c

/-- A search: the engine that has counted it, and its outcome. -/
def search (e : Engine) (query : Text) (maxResults : Option Int) (verbsOnly : Bool) :
    Engine × Except SearchError SearchResponse :=
  let outcome := e.run query maxResults verbsOnly
  ({ e with counters := count e.counters outcome }, outcome)

/-- A query compiled without a search. -/
def explain (e : Engine) (query : Text) (verbsOnly : Bool) : Except CompileError Query.Compiled :=
  Query.compile e.lexicon query verbsOnly

def findEntries (e : Engine) (source : Text) (verbsOnly : Bool) :
    Except CompileError (List Entry) :=
  Query.findEntries e.lexicon source verbsOnly

def stats (e : Engine) : EngineStats := ⟨e.counters, e.index.stats, e.lexicon.stats⟩

def resetStats (e : Engine) : Engine := { e with counters := {} }

end Engine

end VerseSearch
