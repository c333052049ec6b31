import VerseSearch.Hebrew.Spelling
import VerseSearch.Query.Substitution

/-! # Letters in queries

A query is a pattern in which letters stand for the letters of search strings: final forms for
their letters, a bare shin for shin and sin, and two signs for letters that vary.

* `shinSubstitutions`: what becomes of a bare shin, and of ranges that touch it.
* `matresSubstitution`: the sign for any number of the letters that may stand for vowels.
* `anyLetterSubstitution`: the sign for any letter.
* `normalizeBlock`: the substitutions for the inside of a block.
* `normalizeSource`: the substitutions for a whole query, which also make white space and marks
  irrelevant and admit a tag at the end of each word.
-/

namespace VerseSearch.Query
set_option autoImplicit false

open Hebrew (bareShin tav)

/-! ## Substitutions -/

def shinOrSin : Text := [Hebrew.sin, Hebrew.shin]

/-- The letters sin and shin as a bracket expression. -/
def shinOrSinSet : Text := '[' :: shinOrSin ++ [']']

/-- A range that ends with the last letter does not hold shin and sin by their code points, so it
ends before them and they are added. -/
def rangeToTav : Substitution where
  target := ['-', tav]
  notAfter := some tav
  inside := ['-', 'ר'] ++ shinOrSin ++ [tav]
  outside := ['-', tav]

/-- A range that ends with shin. -/
def rangeToShin : Substitution where
  target := ['-', bareShin]
  inside := ['-', 'ר'] ++ shinOrSin
  outside := '-' :: shinOrSinSet

/-- A range that begins with shin. -/
def rangeFromShin : Substitution where
  target := [bareShin, '-']
  inside := shinOrSin ++ [tav, '-']
  outside := shinOrSinSet ++ ['-']

/-- A bare shin that belongs to no range. -/
def loneShin : Substitution where
  target := [bareShin]
  inside := shinOrSin
  outside := shinOrSinSet

/-- The substitutions of the bare shin, in their order. -/
def shinSubstitutions : List Substitution := [rangeToTav, rangeToShin, rangeFromShin, loneShin]

def matres : Text := ['א', 'ה', 'ו', 'י']

/-- The sign for any number of letters that may stand for vowels. -/
def matresSubstitution : Substitution where
  target := ['@']
  inside := matres
  outside := '[' :: matres ++ [']', '*']

def anyLetterSubstitution : Substitution where
  target := ['#']
  inside := ['א', '-', tav]
  outside := ['[', 'א', '-', tav, Hebrew.shin, Hebrew.sin, ']']

/-! ## White space -/

/-- Every run of white space as one space; `inRun` says whether the text continues one. -/
def collapseBlanksFrom (inRun : Bool) : Text → Text
  | [] => []
  | c :: rest =>
    if Text.isBlank c then
      if inRun then collapseBlanksFrom true rest else ' ' :: collapseBlanksFrom true rest
    else c :: collapseBlanksFrom false rest

/-- Every run of white space as one space. -/
def collapseBlanks (t : Text) : Text := collapseBlanksFrom false t

def dropNonLetters (t : Text) : Text := t.filter fun c => !Hebrew.isNonLetter c

/-- The pattern for a tag that may be there. -/
def tagSlot : Text := "(?:<\\d+>|)".toList

/-- Admits a tag before every space that does not follow a tag. A space that ends one such place
does not begin another. -/
def insertTagSlots : Text → Text
  | [] => []
  | c :: ' ' :: rest =>
    if c = '>' then c :: insertTagSlots (' ' :: rest)
    else c :: (tagSlot ++ ' ' :: insertTagSlots rest)
  | c :: rest => c :: insertTagSlots rest

/-! ## Queries -/

/-- Letters without final forms, with composed letters, and with the bare shin replaced. -/
def substituteLetters (source : Text) : Text :=
  shinSubstitutions.foldl (fun t r => r.apply t) (Hebrew.compose (Hebrew.regularize source))

def substituteSigns (source : Text) : Text :=
  anyLetterSubstitution.apply (matresSubstitution.apply source)

/-- The pattern that the inside of a block stands for. -/
def normalizeBlock (source : Text) : Text := substituteSigns (substituteLetters source)

/-- The pattern that a query without blocks stands for. -/
def normalizeSource (source : Text) : Text :=
  insertTagSlots (substituteSigns (dropNonLetters (collapseBlanks (substituteLetters source))))

/-! ## Roots -/

/-- The words that are formed from a root of two letters. -/
def rootForms (x y : Char) : List Text :=
  [[x, y], ['נ', x, y], ['י', x, y], [x, 'ו', y], [x, 'י', y], [x, y, 'ה'], [x, y, y],
   [x, y, x, y]]

/-- The block that the query for a root stands for: two letters between two digits two. -/
def expandRoot : Text → Option Text
  | ['2', x, y, '2'] =>
    if x = '\n' || y = '\n' then none
    else some ('<' :: List.intercalate ['|'] (rootForms x y) ++ ['>'])
  | _ => none

end VerseSearch.Query
