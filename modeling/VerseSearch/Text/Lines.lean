import VerseSearch.Text.Basic

/-! # Lines of a file

A line ends with a line feed, a carriage return, or the two in that order; each of these is read
as one line feed.

* `Text.unifyLineEnds`: the three line ends written as a line feed.
* `Text.lines`: the lines of a text, each with its line feed; the last one may have none.
* `Text.dropLineEnd`: a line without the line ends after it.
* `LineError`: what is wrong with a line, and which line it is.
-/

namespace VerseSearch.Text
set_option autoImplicit false

/-- Every line end of a text written as one line feed, after the characters `done`, the last of
which comes first. -/
def unifyLineEndsAfter (done : Text) : Text → Text
  | [] => done.reverse
  | '\r' :: '\n' :: rest => unifyLineEndsAfter ('\n' :: done) rest
  | c :: rest => unifyLineEndsAfter ((if c = '\r' then '\n' else c) :: done) rest

/-- Every line end written as one line feed. -/
def unifyLineEnds (t : Text) : Text := unifyLineEndsAfter [] t

/-- The lines of a text after the lines `done` and the characters `line` of the current one; in
both the last one comes first. -/
def linesAfter (done : List Text) (line : Text) : Text → List Text
  | [] => (if line.isEmpty then done else line.reverse :: done).reverse
  | c :: rest =>
    if c = '\n' then linesAfter ((c :: line).reverse :: done) [] rest
    else linesAfter done (c :: line) rest

/-- The lines of a text whose lines end with line feeds; each line keeps its line feed. -/
def lines (t : Text) : List Text := linesAfter [] [] t

/-- A line without the line feeds and carriage returns at its end. -/
def dropLineEnd (line : Text) : Text := dropRightWhile (fun c => c = '\r' || c = '\n') line

def fileLines (content : Text) : List Text := lines (unifyLineEnds content)

end VerseSearch.Text

namespace VerseSearch

/-- What is wrong with a line, and which line it is; lines count from one. -/
structure LineError (π : Type) where
  number : Nat
  line : Text
  problem : π
  deriving Repr, DecidableEq

def LineError.message {π : Type} (words : π → String) (e : LineError π) : String :=
  s!"line {e.number}: {words e.problem}"

end VerseSearch
