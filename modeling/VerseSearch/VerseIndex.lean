import VerseSearch.Corpus.Basic
import VerseSearch.Hebrew.Numeral
import VerseSearch.SearchString

/-! # The index of verses

* `IndexedVerse`: a verse with its place and its search string.
* `IndexedVerse.location`: the place as a reader writes it.
* `VerseIndex.ofCorpus`: all verses of a corpus in order.
* `VerseIndex.verse?`: the verse at a place.
* `VerseIndex.bookNames`: the names of the books in order.
-/

namespace VerseSearch
set_option autoImplicit false

/-! ## Verses -/

/-- A verse with all that is needed to search and to show it. Chapters and verses count from
zero. -/
structure IndexedVerse where
  index : Nat
  book : Text
  chapter : Nat
  verse : Nat
  words : List Text
  tags : List Int
  searchString : Text
  deriving Repr, DecidableEq

namespace IndexedVerse

/-- The place of a verse: the book and the numerals of chapter and verse. -/
def location (v : IndexedVerse) : Except Numeral.RangeError Text := do
  let chapter ← Numeral.ofIndex v.chapter
  let verse ← Numeral.ofIndex v.verse
  return v.book ++ ' ' :: chapter ++ ':' :: verse

/-- The words with separators between them. -/
def text (v : IndexedVerse) : Text := List.intercalate [Hebrew.separator] v.words

end IndexedVerse

/-! ## The index -/

/-- Verses in the order of the corpus. -/
structure VerseIndex where
  verses : List IndexedVerse
  deriving Repr, DecidableEq

structure IndexStats where
  verses : Nat
  words : Nat
  deriving Repr, DecidableEq

namespace VerseIndex

def normalizeWords : List TaggedWord → Except Hebrew.InvalidCharacter (List Text)
  | [] => .ok []
  | w :: rest =>
    match Hebrew.normalize w.word with
    | .error e => .error e
    | .ok n => (normalizeWords rest).map (n :: ·)

def indexVerse (index : Nat) (book : Text) (chapter verse : Nat) (v : Verse) :
    Except Hebrew.InvalidCharacter IndexedVerse :=
  match normalizeWords v, SearchString.ofWords v with
  | .error e, _ => .error e
  | _, .error e => .error e
  | .ok words, .ok searchString =>
    .ok { index, book, chapter, verse, words, tags := v.map (·.tag), searchString }

def places (c : Corpus Text) : List (Text × Nat × Nat × Verse) :=
  c.books.flatMap fun b =>
    b.chapters.zipIdx.flatMap fun (verses, chapter) =>
      verses.zipIdx.map fun (v, verse) => (b.name, chapter, verse, v)

/-- The indexed forms of verses from number `index` on, after the verses `done`, the last of which
comes first. -/
def indexAll (index : Nat) (done : List IndexedVerse) :
    List (Text × Nat × Nat × Verse) → Except Hebrew.InvalidCharacter (List IndexedVerse)
  | [] => .ok done.reverse
  | (book, chapter, verse, v) :: rest =>
    match indexVerse index book chapter verse v with
    | .error e => .error e
    | .ok iv => indexAll (index + 1) (iv :: done) rest

def ofCorpus (c : Corpus Text) : Except Hebrew.InvalidCharacter VerseIndex :=
  (indexAll 0 [] (places c)).map VerseIndex.mk

/-- The verse at a place; of several verses at one place the last one. -/
def verse? (i : VerseIndex) (book : Text) (chapter verse : Int) : Option IndexedVerse :=
  i.verses.reverse.find? fun v => v.book = book && v.chapter = chapter && v.verse = verse

def stats (i : VerseIndex) : IndexStats where
  verses := i.verses.length
  words := (i.verses.flatMap (·.words)).length

/-- A list without the items that equal the one before them. -/
def dropRepeats : List Text → List Text
  | [] => []
  | [t] => [t]
  | t :: u :: rest => if t = u then dropRepeats (u :: rest) else t :: dropRepeats (u :: rest)

/-- The names of the books that have verses, in order. -/
def bookNames (i : VerseIndex) : List Text := dropRepeats (i.verses.map (·.book))

end VerseIndex

end VerseSearch
