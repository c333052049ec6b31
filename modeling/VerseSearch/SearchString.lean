import VerseSearch.Hebrew.Spelling
import VerseSearch.TaggedWord.Basic

/-! # Search strings

The search string of a verse is what patterns are matched with. Every word stands in it as its
searchable form and its tag in angle brackets; a separator stands before, between and after them.

* `SearchString.segment`: the part of one word.
* `SearchString.assemble`: the parts with their separators.
* `SearchString.ofWords`: the search string of tagged words.
-/

namespace VerseSearch.SearchString
set_option autoImplicit false

/-- The part of a word, given its searchable form and the text of its tag. -/
def segment (searchable tag : Text) : Text := searchable ++ '<' :: tag ++ ['>']

/-- The parts with a separator before the first and after each. -/
def assemble (segments : List Text) : Text :=
  Hebrew.separator :: segments.flatMap (· ++ [Hebrew.separator])

/-- The parts of words whose tags are given as texts. -/
def segments : List (Text × Text) → Except Hebrew.InvalidCharacter (List Text)
  | [] => .ok []
  | (word, tag) :: rest =>
    match Hebrew.searchable word with
    | .error e => .error e
    | .ok searchable => (segments rest).map (segment searchable tag :: ·)

/-- The search string of words whose tags are given as texts. -/
def ofTexts (words : List (Text × Text)) : Except Hebrew.InvalidCharacter Text :=
  (segments words).map assemble

/-- The search string of words. Integers of any length have a text here, which is read as an integer up to
the bound on its digits. -/
def ofWords (ws : List TaggedWord) : Except Hebrew.InvalidCharacter Text :=
  ofTexts (ws.map fun w => (w.word, Text.ofInt w.tag))

end VerseSearch.SearchString
