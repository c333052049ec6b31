import VerseSearch.Corpus.BookName
import VerseSearch.Hebrew.Spelling
import VerseSearch.Text.Digit

/-! # The fields of a corpus row

A row gives the English name of a book, the numbers of a chapter and of a verse, a word and its
tag, with tabs between them.

* `Row.Problem`: what can be wrong with a row.
* `Row.completeShin`: a word in which every shin has its dot.
* `Row.readWord`, `Row.readTag`, `Row.readSequence`: the fields.
* `Row.ofLine`: a line cut into fields.
-/

namespace VerseSearch.Corpus.Row
set_option autoImplicit false

/-! ## Problems -/

inductive Problem where
  | missingFields (count : Nat)
  | unknownBook (name : Text)
  | repeatedBook (name : Text)
  | invalidSequence (kind field : Text)
  | sequenceBelowOne (kind : Text) (number : Int)
  | unexpectedSequence (kind : Text) (number expected : Nat)
  | undottedShin (word : Text)
  | invalidCharacter (e : Hebrew.InvalidCharacter)
  | missingWord
  | invalidTag (field : Text)
  | tagOutOfRange (tag : Int)
  deriving Repr, DecidableEq

def Problem.message : Problem → String
  | .missingFields count => s!"Expected 5 tab-separated fields, got {count}"
  | .unknownBook name => "Unknown BSB book name " ++ String.ofList name.quoted
  | .repeatedBook name => "Book " ++ String.ofList name.quoted ++ " appears twice"
  | .invalidSequence kind field =>
    "Invalid " ++ String.ofList kind ++ " sequence number " ++ String.ofList field.quoted
  | .sequenceBelowOne kind number =>
    "Invalid " ++ String.ofList kind ++ s!" sequence number {number}, numbering starts at 1"
  | .unexpectedSequence kind number expected =>
    "Unexpected " ++ String.ofList kind ++ s!" sequence number {number}, expected {expected}"
  | .undottedShin word =>
    "Found unnormalized ש (without a Sin/Shin point) in word " ++ String.ofList word.quoted
  | .invalidCharacter e => e.message
  | .missingWord => "Missing Hebrew word"
  | .invalidTag field => "Invalid Strong number " ++ String.ofList field.quoted
  | .tagOutOfRange tag => s!"Strong number {tag} is out of range"

/-! ## Words -/

/-- The words known to be written with a sin that has no dot. -/
def undottedSinWords : List Text :=
  [['\u05e9', '\u05b5', '\u05d9', '\u05d1', '\u05b8', '\u0596', '\u05d4']]

/-- The words known to be written with a shin that has no dot. -/
def undottedShinWords : List Text :=
  [['\u05d0', '\u05b4', '\u05a5', '\u05d9', '\u05e9'],
   ['\u05d7', '\u05de', '\u05e9'],
   ['\u05e9', '\u05b8', '\u05de', '\u05b7', '\u0596', '\u05d9', '\u05b4', '\u05dd']]

/-- The name that is written with two letters sin, of which the second has no dot. -/
def issachar : Text := ['י', Hebrew.sin, Hebrew.bareShin, 'כ', 'ר']

/-- A word in which every shin and sin is one composed letter. A letter without dot is completed in
the words that are known for it. -/
def completeShin (word : Text) : Except Problem Text :=
  let composed := Hebrew.compose word
  let bones := composed.filter fun c => c = Hebrew.bareShin || Hebrew.isLetter c
  if Hebrew.bareShin ∉ composed then .ok composed
  else if Text.isPartOf issachar bones || undottedSinWords.contains word then
    .ok (composed.replaceChar Hebrew.bareShin Hebrew.sin)
  else if undottedShinWords.contains word then
    .ok (composed.replaceChar Hebrew.bareShin Hebrew.shin)
  else .error (.undottedShin word)

/-- The normalized form of the word of a row. -/
def readWord (word : Text) : Except Problem Text :=
  match completeShin word with
  | .error e => .error e
  | .ok completed =>
    match Hebrew.normalize completed with
    | .error e => .error (.invalidCharacter e)
    | .ok normalized => if normalized.isEmpty then .error .missingWord else .ok normalized

/-! ## Numbers -/

def maxTag : Int := 65535

/-- The tag of a row; an empty field stands for zero. -/
def readTag (field : Text) : Except Problem Int :=
  let stripped := field.strip
  if stripped.isEmpty then .ok 0
  else match Text.readInt stripped with
    | .error _ => .error (.invalidTag stripped)
    | .ok tag => if tag < 0 ∨ maxTag < tag then .error (.tagOutOfRange tag) else .ok tag

/-- The number of a chapter or a verse, counted from one. -/
def readSequence (kind field : Text) : Except Problem Nat :=
  match Text.readInt field with
  | .error _ => .error (.invalidSequence kind field)
  | .ok n => if n < 1 then .error (.sequenceBelowOne kind n) else .ok n.toNat

end VerseSearch.Corpus.Row

namespace VerseSearch.Corpus

/-! ## Lines -/

/-- The fields of a row, as they are written. -/
structure Row where
  book : Text
  chapter : Text
  verse : Text
  word : Text
  tag : Text
  deriving Repr, DecidableEq

end VerseSearch.Corpus

namespace VerseSearch.Corpus.Row

/-- The first field of a line that is no row but the heading of the columns. -/
def heading : Text := "bookName".toList

/-- Whether a line holds no row: it is blank, or the heading of the columns. -/
def isSkipped (line : Text) : Bool :=
  line.isAllBlank || (List.splitOn '\t' line).head? = some heading

/-- The row of a line. A tag that is not written is empty. -/
def ofLine (line : Text) : Except Problem Row :=
  match List.splitOn '\t' line with
  | book :: chapter :: verse :: word :: more =>
    .ok ⟨book, chapter, verse, word, more.head?.getD []⟩
  | fields => .error (.missingFields fields.length)

end VerseSearch.Corpus.Row
