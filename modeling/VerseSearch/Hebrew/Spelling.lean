import VerseSearch.Hebrew.Alphabet
import VerseSearch.Text.Quoted

/-! # The spelling of words

A word is brought to the symbols of an alphabet, and from there to the letters that a search sees.

* `compose`: a bare shin and the dot after it as one composed letter.
* `cutVerseEnd`: a text without the sof-pasuq that ends a verse and the section marks after it.
* `normalize`: the two, without maqafs, checked against an alphabet.
* `searchable`: the letters of a normalized word, without final forms.
* `display`: a text with its points or accents hidden.
-/

namespace VerseSearch.Hebrew
set_option autoImplicit false

/-! ## Shin and sin -/

/-- Whether a mark may stand between a bare shin and its dot. The sin dot is not such a mark. -/
def isInterleaved (c : Char) : Bool :=
  inRanges [(0x590, 0x5C1), (0x5C3, 0x5CF), (0x5EB, 0x5FF)] c.toNat

def beforeLast (c : Char) : Text → Option Text
  | [] => none
  | d :: rest =>
    match beforeLast c rest with
    | some before => some (d :: before)
    | none => if d = c then some [] else none

/-- Every bare shin with a shin dot among the marks after it becomes a composed shin; the last
such dot is dropped. -/
def composeShin (t : Text) : Text :=
  match t with
  | [] => []
  | c :: rest =>
    if c = bareShin then
      match beforeLast shinDot (rest.takeWhile isInterleaved) with
      | some marks => shin :: marks ++ composeShin (rest.drop (marks.length + 1))
      | none => c :: composeShin rest
    else c :: composeShin rest
termination_by t.length
decreasing_by all_goals (simp only [List.length_drop, List.length_cons]; omega)

/-- Every bare shin with a sin dot right after its marks becomes a composed sin; the dot is
dropped. -/
def composeSin (t : Text) : Text :=
  match t with
  | [] => []
  | c :: rest =>
    if c = bareShin then
      let marks := rest.takeWhile isInterleaved
      if rest[marks.length]? = some sinDot then
        sin :: marks ++ composeSin (rest.drop (marks.length + 1))
      else c :: composeSin rest
    else c :: composeSin rest
termination_by t.length
decreasing_by all_goals (simp only [List.length_drop, List.length_cons]; omega)

/-- Every dotted shin and sin as one composed letter. -/
def compose (t : Text) : Text := composeSin (composeShin t)

/-! ## The end of a verse -/

/-- Whether a character may stand in the end of a verse. -/
def isVerseEnd (c : Char) : Bool :=
  c = sofPasuq || c = openSection || c = closedSection || c = nunHafukha

/-- A text without line feed at its end, and that line feed. -/
def splitFinalBreak (t : Text) : Text × Text :=
  if t.getLast? = some '\n' then (t.dropLast, ['\n']) else (t, [])

/-- A text up to the first sof-pasuq among the verse-end characters at its end. A line feed after
them stays. -/
def cutVerseEnd (t : Text) : Text :=
  let (body, final) := splitFinalBreak t
  let tail := (body.reverse.takeWhile isVerseEnd).reverse
  body.take (body.length - tail.length) ++ tail.takeWhile (· ≠ sofPasuq) ++ final

/-! ## Normalization -/

/-- A character outside the alphabet, and the text that holds it. -/
structure InvalidCharacter where
  char : Char
  word : Text
  deriving Repr, DecidableEq

def InvalidCharacter.message (e : InvalidCharacter) : String :=
  "Unknown Hebrew character " ++ String.ofList (Text.quoted [e.char]) ++ " (" ++
    String.ofList (Text.codePointName e.char) ++ ") in word " ++ String.ofList (Text.quoted e.word)

/-- A text with composed letters, without maqafs and without the end of a verse. -/
def canonical (t : Text) : Text := cutVerseEnd ((compose t).filter (· ≠ maqaf))

/-- The canonical form of a text, if it consists of symbols of an alphabet. -/
def normalizeIn (a : Alphabet) (t : Text) : Except InvalidCharacter Text :=
  match (canonical t).find? fun c => !a.contains c with
  | some c => .error ⟨c, canonical t⟩
  | none => .ok (canonical t)

/-- The canonical form of a text, if it consists of symbols of the Hebrew alphabet. -/
def normalize (t : Text) : Except InvalidCharacter Text := normalizeIn .hebrew t

/-! ## Searchable forms -/

def keepLetters (t : Text) : Text := t.filter isLetter

/-- A text with every final form as its letter. -/
def regularize (t : Text) : Text := t.map toRegular

/-- The letters of the normalized text, without final forms. -/
def searchableIn (a : Alphabet) (t : Text) : Except InvalidCharacter Text :=
  (normalizeIn a t).map fun n => regularize (keepLetters n)

/-- The searchable form in the Hebrew alphabet. -/
def searchable (t : Text) : Except InvalidCharacter Text := searchableIn .hebrew t

/-! ## Display -/

def hidePoints (t : Text) : Text := t.filter fun c => !isPoint c

def hideAccents (t : Text) : Text := t.filter fun c => !isAccent c

/-- A text with its points and accents shown or hidden. -/
def display (t : Text) (showPoints showAccents : Bool) : Text :=
  let t := if showPoints then t else hidePoints t
  if showAccents then t else hideAccents t

end VerseSearch.Hebrew
