import VerseSearch.Corpus.Basic
import VerseSearch.Corpus.Row
import VerseSearch.Pattern.Find
import VerseSearch.Text.Lines

/-! # A corpus from lines

Chapters and verses count from one without gaps, and the rows of a book stand together.

* `LocatedWord`: a word with its book, chapter and verse.
* `Progress`: the words of the rows so far; `Progress.add` adds a row.
* `Corpus.ofLocated`: the corpus of located words in order.
* `Corpus.ofLines`: the corpus of the lines of a file, or the first line that makes none.
* `Corpus.restrict`: the books whose names a pattern finds.
-/

namespace VerseSearch
set_option autoImplicit false

/-! ## Places -/

/-- The place of a verse: a book, and the numbers of chapter and verse, counted from one. -/
structure Place where
  book : Text
  chapter : Nat
  verse : Nat
  deriving Repr, DecidableEq

structure LocatedWord where
  place : Place
  word : TaggedWord
  deriving Repr, DecidableEq

/-! ## Reading rows -/

/-- The words of the rows so far, the last one first. -/
structure Progress where
  words : List LocatedWord := []
  deriving Repr, DecidableEq

namespace Progress

def hasBook (p : Progress) (book : Text) : Bool := p.words.any fun w => w.place.book = book

/-- The numbers of the chapter and the verse reached in a book, zero in a new one. -/
def reached (p : Progress) (book name : Text) : Except Corpus.Row.Problem (Nat × Nat) :=
  match p.words with
  | [] => .ok (0, 0)
  | w :: _ =>
    if w.place.book = book then .ok (w.place.chapter, w.place.verse)
    else if p.hasBook book then .error (.repeatedBook name)
    else .ok (0, 0)

/-- The verse reached in chapter `number`, where the chapter reached is `chapter`. -/
def enterChapter (number chapter verse : Nat) : Except Corpus.Row.Problem Nat :=
  if number = chapter then .ok verse
  else if number = chapter + 1 then .ok 0
  else .error (.unexpectedSequence "chapter".toList number (chapter + 1))

/-- Admits the verse reached and the next one. -/
def checkVerse (number verse : Nat) : Except Corpus.Row.Problem Unit :=
  if number = verse ∨ number = verse + 1 then .ok ()
  else .error (.unexpectedSequence "verse".toList number (verse + 1))

def add (p : Progress) (row : Corpus.Row) : Except Corpus.Row.Problem Progress := do
  let some book := BookName.hebrew? row.book | .error (.unknownBook row.book)
  let (chapter, verse) ← p.reached book row.book
  let chapterNumber ← Corpus.Row.readSequence "chapter".toList row.chapter
  let verse ← enterChapter chapterNumber chapter verse
  let verseNumber ← Corpus.Row.readSequence "verse".toList row.verse
  checkVerse verseNumber verse
  let word ← Corpus.Row.readWord row.word
  let tag ← Corpus.Row.readTag row.tag
  return ⟨⟨⟨book, chapterNumber, verseNumber⟩, ⟨word, tag⟩⟩ :: p.words⟩

/-- Adds the row of a line; a line without row changes nothing. -/
def addLine (p : Progress) (line : Text) : Except Corpus.Row.Problem Progress :=
  if Corpus.Row.isSkipped line then .ok p
  else match Corpus.Row.ofLine line with
    | .error e => .error e
    | .ok row => p.add row

def addLines (p : Progress) (number : Nat) :
    List Text → Except (LineError Corpus.Row.Problem) Progress
  | [] => .ok p
  | line :: rest =>
    match p.addLine (Text.dropLineEnd line) with
    | .error e => .error ⟨number, Text.dropLineEnd line, e⟩
    | .ok p => p.addLines (number + 1) rest

end Progress

/-! ## Corpora -/

namespace Corpus

/-- Adds a word in front of books; `next` is the place of the word that comes after it. -/
def prepend (w : LocatedWord) (next : Option Place) (books : List (Book Text)) :
    List (Book Text) :=
  let fresh : Book Text := ⟨w.place.book, [[[w.word]]]⟩
  match next, books with
  | some place, b :: more =>
    if place.book ≠ w.place.book then fresh :: b :: more
    else match b.chapters with
      | [] => fresh :: b :: more
      | verses :: chapters =>
        if place.chapter ≠ w.place.chapter then
          { b with chapters := [[w.word]] :: verses :: chapters } :: more
        else match verses with
          | [] => { b with chapters := [[w.word]] :: chapters } :: more
          | words :: verses =>
            if place.verse ≠ w.place.verse then
              { b with chapters := ([w.word] :: words :: verses) :: chapters } :: more
            else { b with chapters := ((w.word :: words) :: verses) :: chapters } :: more
  | _, books => fresh :: books

/-- Adds words in front of books, the nearest one first. -/
def prependAll (next : Option Place) (books : List (Book Text)) :
    List LocatedWord → List (Book Text)
  | [] => books
  | w :: rest => prependAll (some w.place) (prepend w next books) rest

/-- The corpus of located words of which the last one comes first. -/
def ofLocated (words : List LocatedWord) : Corpus Text := ⟨prependAll none [] words⟩

/-- The corpus of lines, or the first line that makes none. -/
def ofLines (lines : List Text) : Except (LineError Row.Problem) (Corpus Text) :=
  (({} : Progress).addLines 1 lines).map fun p => ofLocated p.words

/-- The books whose names a pattern finds. -/
def restrict (c : Corpus Text) (p : Pattern) : Corpus Text :=
  ⟨c.books.filter fun b => p.occursIn b.name⟩

inductive ReadError where
  /-- The pattern for the names of books is none. -/
  | pattern (e : PatternError)
  | row (e : LineError Row.Problem)
  deriving Repr, DecidableEq

def ReadError.message : ReadError → String
  | .pattern e => e.message
  | .row e => e.message Row.Problem.message

/-- The corpus of lines, restricted to the books that a pattern finds. An absent or empty pattern
finds all. -/
def read [Pattern.CharNames] (bookFilter : Option Text) (lines : List Text) : Except ReadError
    (Corpus Text) :=
  match bookFilter with
  | none => (ofLines lines).mapError .row
  | some source =>
    if source.isEmpty then (ofLines lines).mapError .row
    else match Pattern.parse source with
      | .error e => .error (.pattern e)
      | .ok p => ((ofLines lines).mapError ReadError.row).map (·.restrict p)

end Corpus

end VerseSearch
