import VerseSearch.Engine
import VerseSearch.Json.Basic

/-! # Results as JSON

* `SearchResponse.toJson`, `Query.Compiled.toJson`: the results of a search, a compiled query.
* `Entry.toJson`: an entry of the lexicon with the name of its category and the page about it.
* `IndexStats.toJson`, `LexiconStats.toJson`: counts.
-/

namespace VerseSearch
set_option autoImplicit false

def VerseResult.toJson (r : VerseResult) : Json :=
  .ofFields [
    ("book", .str r.book), ("chapter", .str r.chapter), ("verse", .str r.verse),
    ("chapter_index", .ofNat r.chapterIndex), ("verse_index", .ofNat r.verseIndex),
    ("location", .str r.location), ("words", .ofList .str r.words), ("tags", .ofList .int r.tags),
    ("matched_word_indexes", .ofList .ofNat r.coveredWords),
    ("matched_text", .ofList .str r.matchedText)]

def Query.Block.toJson (b : Query.Block) : Json :=
  .ofFields [
    ("block", .str b.text), ("replacement", .str b.replacement),
    ("tags", .ofList (fun e => .ofNat e.tag) b.entries)]

def Query.Compiled.fields (c : Query.Compiled) (query : Text) : List (String × Json) :=
  [("query", .str query), ("pattern", .str c.source), ("verbs_only", .bool c.verbsOnly),
   ("lexicon_blocks", .ofList Query.Block.toJson c.blocks)]

def Query.Compiled.toJson (c : Query.Compiled) (query : Text) : Json := .ofFields (c.fields query)

def SearchResponse.toJson (r : SearchResponse) : Json :=
  .ofFields (r.compiled.fields r.query ++ [
    ("total_results", .ofNat r.results.length), ("truncated", .bool r.truncated),
    ("results", .ofList VerseResult.toJson r.results)])

def Entry.toJson (e : Entry) : Json :=
  .ofFields [
    ("tag", .ofNat e.tag), ("word", .str e.word), ("searchable", .str e.searchable),
    ("category", .str e.category.toName), ("category_hebrew", .str e.category.hebrewName),
    ("biblehub_url", if e.isSentinel then .null else .str e.url)]

def IndexStats.toJson (s : IndexStats) : Json :=
  .ofFields [("total_verses", .ofNat s.verses), ("total_words", .ofNat s.words)]

def LexiconStats.toJson (s : LexiconStats) : Json :=
  .ofFields [
    ("total_entries", .ofNat s.total), ("defined_entries", .ofNat s.defined),
    ("verbs", .ofNat s.verbs)]

def CorpusStats.toJson (s : CorpusStats) : Json :=
  .ofFields [
    ("total_books", .ofNat s.books), ("total_chapters", .ofNat s.chapters),
    ("total_verses", .ofNat s.verses), ("total_words", .ofNat s.words)]

def Counters.fields (c : Counters) : List (String × Json) :=
  [("total_queries", .ofNat c.total), ("failed_queries", .ofNat c.failed),
   ("matched_queries", .ofNat c.matched), ("no_matches", .ofNat c.unmatched),
   ("truncated_queries", .ofNat c.truncated)]

def EngineStats.toJson (s : EngineStats) : Json :=
  .ofFields (s.counters.fields ++ [
    ("error_rate", .real (.ofRat s.counters.errorRate)),
    ("index_stats", s.index.toJson), ("lexicon_stats", s.lexicon.toJson)])

end VerseSearch
