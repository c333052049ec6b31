import VerseSearch.Hebrew.Spelling
import VerseSearch.Lexicon.Category
import VerseSearch.Pattern.Find

/-! # The lexicon

* `Entry`: a number with its word, category and searchable form.
* `Entry.sentinel`: the entry of a number that has no word.
* `Lexicon.ofEntries`: a table with an entry for every number up to the greatest one.
* `Lexicon.ofRows`: the same from words that are normalized first.
* `Lexicon.find`: the entries whose number or searchable form a pattern matches.
* `Lexicon.forms`: the searchable forms in order.
-/

namespace VerseSearch
set_option autoImplicit false

/-! ## Entries -/

/-- A number of the lexicon: its word with points, category and searchable form. -/
structure Entry where
  tag : Nat
  word : Text
  category : Category
  searchable : Text
  deriving Repr, DecidableEq

namespace Entry

/-- The entry of a number that has no word. Its word is the separator alone, because an empty word
has no byte form. -/
def sentinel (tag : Nat) : Entry := ⟨tag, [Hebrew.separator], .unknown, []⟩

/-- Whether the number has no word. -/
def isSentinel (e : Entry) : Bool := e.category = .unknown

def isVerb (e : Entry) : Bool := e.category = .verb

/-- The page about a number. -/
def url (e : Entry) : Text :=
  "https://biblehub.com/hebrew/".toList ++ Text.ofNat e.tag ++ ".htm".toList

/-- Whether a pattern matches the number, or the searchable form of an entry that has a word. -/
def isMatchedBy (e : Entry) (p : Pattern) : Bool :=
  p.fullMatches (Text.ofNat e.tag) || !e.isSentinel && p.fullMatches e.searchable

end Entry

/-! ## The table -/

/-- A table of entries in which the entry at each place has the place as its number. -/
structure Lexicon where
  entries : List Entry
  deriving Repr, DecidableEq

structure LexiconStats where
  total : Nat
  defined : Nat
  verbs : Nat
  deriving Repr, DecidableEq

namespace Lexicon

def sizeFor (es : List Entry) : Nat := es.foldl (fun n e => max n (e.tag + 1)) 0

/-- The table of the given entries. Of entries with one number the last one counts, and a number
without entry gets a sentinel. -/
def ofEntries (es : List Entry) : Lexicon :=
  let latest := es.reverse
  ⟨(List.range (sizeFor es)).map fun tag =>
    (latest.find? fun e => e.tag = tag).getD (.sentinel tag)⟩

/-- A row of a lexicon: word, category and number. -/
structure Row where
  word : Text
  category : Category
  tag : Int
  deriving Repr, DecidableEq

/-- The entry of a row; a row with a negative number is checked and has none. -/
def Row.entry? (row : Row) : Except Hebrew.InvalidCharacter (Option Entry) := do
  let place (f : Nat → Entry) : Option Entry := if 0 ≤ row.tag then some (f row.tag.toNat) else none
  if row.category = .unknown then
    return place .sentinel
  let word ← Hebrew.normalize row.word
  let searchable ← Hebrew.searchable word
  return place fun tag => ⟨tag, word, row.category, searchable⟩

def ofRows (rows : List Row) : Except Hebrew.InvalidCharacter Lexicon := do
  let entries ← rows.mapM Row.entry?
  return ofEntries (entries.filterMap id)

def size (l : Lexicon) : Nat := l.entries.length

def get? (l : Lexicon) (tag : Int) : Option Entry :=
  match tag with
  | .ofNat n => l.entries[n]?
  | .negSucc _ => none

/-- The entries that a pattern matches, in the order of their numbers. -/
def find (l : Lexicon) (p : Pattern) (verbsOnly : Bool) : List Entry :=
  l.entries.filter fun e => e.isMatchedBy p && (!verbsOnly || e.isVerb)

/-- Inserts a text into a sorted list without repetitions. -/
def insertForm (t : Text) : List Text → List Text
  | [] => [t]
  | u :: rest =>
    if t.precedes u then t :: u :: rest else if t = u then u :: rest else u :: insertForm t rest

/-- The searchable forms that are not empty, each once, in the order of their code points. -/
def forms (l : Lexicon) : List Text :=
  ((l.entries.map (·.searchable)).filter (!·.isEmpty)).foldl (fun fs t => insertForm t fs) []

def stats (l : Lexicon) : LexiconStats where
  total := l.entries.length
  defined := l.entries.countP fun e => !e.isSentinel
  verbs := l.entries.countP (·.isVerb)

end Lexicon

/-! ## Patterns for whole texts -/

/-- A pattern that must match a whole text. -/
def Pattern.parseAnchored [CharNames] (source : Text) : Except PatternError Pattern :=
  Pattern.parse ("^(?:".toList ++ source ++ ")$".toList)

end VerseSearch
