import VerseSearch.TaggedWord.Basic

/-! # The corpus

* `Verse`, `Chapter`, `Book`, `Corpus`: tagged words in verses, chapters and books.
* `Corpus.book?`: the first book of a name.
* `Corpus.stats`: the numbers of books, chapters, verses and words.

The names of books are of any type: text in a corpus that is searched, and any value in one that
comes from a bundle.
-/

namespace VerseSearch
set_option autoImplicit false

abbrev Verse := List TaggedWord

abbrev Chapter := List Verse

structure Book (ν : Type) where
  name : ν
  chapters : List Chapter
  deriving Repr, DecidableEq

/-- The verses of a book, without the chapters that they stand in. -/
def Book.verses {ν : Type} (b : Book ν) : List Verse := b.chapters.flatten

def Book.verseCount {ν : Type} (b : Book ν) : Nat := b.verses.length

structure Corpus (ν : Type) where
  books : List (Book ν)
  deriving Repr, DecidableEq

structure CorpusStats where
  books : Nat
  chapters : Nat
  verses : Nat
  words : Nat
  deriving Repr, DecidableEq

namespace Corpus

variable {ν : Type}

def size (c : Corpus ν) : Nat := c.books.length

def bookNames (c : Corpus ν) : List ν := c.books.map (·.name)

def book? [DecidableEq ν] (c : Corpus ν) (name : ν) : Option (Book ν) :=
  c.books.find? fun b => b.name = name

def mapNames {μ : Type} (f : ν → μ) (c : Corpus ν) : Corpus μ :=
  ⟨c.books.map fun b => ⟨f b.name, b.chapters⟩⟩

def stats (c : Corpus ν) : CorpusStats where
  books := c.books.length
  chapters := (c.books.flatMap (·.chapters)).length
  verses := (c.books.flatMap (·.verses)).length
  words := (c.books.flatMap (·.verses.flatten)).length

end Corpus

end VerseSearch
