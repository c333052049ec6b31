import VerseSearch.Corpus.Basic
import VerseSearch.Json.Reader
import VerseSearch.Json.Writer
import VerseSearch.Lexicon.Basic
import VerseSearch.TaggedWord.Bytes

/-! # Bundles

A bundle is a JSON object with a version, the books with their verses in base 64, and the lexicon
in base 64. In the lexicon the word of the entry with number `n` stands at place `n`, with the code
of its category as its tag.

* `Bundle.build`: the bundle of a corpus and a lexicon.
* `Bundle.load`: the corpus and the lexicon of a bundle.
* `Bundle.read`: the same from the text of a file.
* `Lexicon.encode`, `Lexicon.decode`: the text of a lexicon and the lexicon of a text.
-/

namespace VerseSearch
set_option autoImplicit false

/-! ## Lexicons as text -/

namespace Lexicon

inductive EncodeError where
  | unlistedCategory (name : Text)
  | code (e : CodeError)
  deriving Repr, DecidableEq

def EncodeError.message : EncodeError → String
  | .unlistedCategory name => Category.missingMessage name
  | .code e => e.message

def encodeEntries : List Entry → Except EncodeError (List UInt8)
  | [] => .ok []
  | e :: rest =>
    match e.category.code? with
    | none => .error (.unlistedCategory e.category.toName)
    | some code =>
      match TaggedWord.encode .hebrew [⟨e.word, code⟩] with
      | .error err => .error (.code err)
      | .ok bytes => (encodeEntries rest).map fun more => bytes ++ more

def encode (l : Lexicon) : Except EncodeError Text := (encodeEntries l.entries).map Base64.encode

inductive DecodeError where
  | code (e : CodeError)
  | invalidCharacter (e : Hebrew.InvalidCharacter)
  deriving Repr, DecidableEq

/-- The entry with a number that a word and the code of its category make. -/
def decodeEntry (tag : Nat) (w : TaggedWord) : Except DecodeError Entry :=
  match Category.ofCode w.tag with
  | .unknown => .ok (.sentinel tag)
  | category =>
    match Hebrew.searchable w.word with
    | .error e => .error (.invalidCharacter e)
    | .ok searchable => .ok ⟨tag, w.word, category, searchable⟩

/-- The entries of words from number `tag` on, after the entries `done`, the last of which comes
first. -/
def decodeEntries (tag : Nat) (done : List Entry) :
    List TaggedWord → Except DecodeError (List Entry)
  | [] => .ok done.reverse
  | w :: rest =>
    match decodeEntry tag w with
    | .error e => .error e
    | .ok e => decodeEntries (tag + 1) (e :: done) rest

/-- The lexicon of a text: the words are those of the numbers from zero on, none left out. -/
def decode (t : Text) : Except DecodeError Lexicon :=
  match TaggedWord.decodeText .hebrew t with
  | .error e => .error (.code e)
  | .ok ws => (decodeEntries 0 [] ws).map Lexicon.mk

end Lexicon

namespace Bundle

/-! ## Building -/

def version : Int := 1

/-- A list of results as the result of a list. -/
def collect {α β ε : Type} (f : α → Except ε β) : List α → Except ε (List β)
  | [] => .ok []
  | a :: rest =>
    match f a with
    | .error e => .error e
    | .ok b => (collect f rest).map (b :: ·)

def buildVerse (v : Verse) : Except CodeError Json :=
  (TaggedWord.encodeText .hebrew v).map Json.str

def buildChapter (c : Chapter) : Except CodeError Json := (collect buildVerse c).map Json.arr

def buildBook (nameJson : Json) (chapters : List Chapter) : Except CodeError Json :=
  (collect buildChapter chapters).map fun cs =>
    Json.ofFields [("name", nameJson), ("chapters", .arr cs)]

/-- The bundle of a corpus and a lexicon; `nameJson` turns the names of books into JSON. -/
def buildWith {ν : Type} (nameJson : ν → Json) (c : Corpus ν) (l : Lexicon) :
    Except Lexicon.EncodeError Json :=
  match collect (fun b => buildBook (nameJson b.name) b.chapters) c.books with
  | .error e => .error (.code e)
  | .ok books =>
    l.encode.map fun t =>
      Json.ofFields [("version", .int version), ("books", .arr books), ("lexicon", .str t)]

def build (c : Corpus Text) (l : Lexicon) : Except Lexicon.EncodeError Json :=
  buildWith Json.str c l

/-! ## Loading -/

/-- A part of a bundle that has the wrong shape. -/
inductive ShapeError where
  | missingKey (key : String)
  | notIterable (kind : String)
  | notSubscriptable (kind : String)
  | stringIndex
  | listIndex
  | notText (kind : String)
  deriving Repr, DecidableEq

def ShapeError.message : ShapeError → String
  | .missingKey key => "KeyError(" ++ String.ofList (Text.quoted key.toList) ++ ")"
  | e =>
    let reason : String :=
      match e with
      | .missingKey key => key
      | .notIterable kind => "'" ++ kind ++ "' object is not iterable"
      | .notSubscriptable kind => "'" ++ kind ++ "' object is not subscriptable"
      | .stringIndex => "string indices must be integers, not 'str'"
      | .listIndex => "list indices must be integers or slices, not str"
      | .notText kind =>
        "argument should be a bytes-like object or ASCII string, not '" ++ kind ++ "'"
    "TypeError(" ++ String.ofList (Text.quoted reason.toList) ++ ")"

inductive LoadError where
  | notAnObject
  | unsupportedVersion (shown : Text)
  | shape (e : ShapeError)
  | code (e : CodeError)
  | invalidCharacter (e : Hebrew.InvalidCharacter)
  deriving Repr, DecidableEq

def LoadError.message : LoadError → String
  | .notAnObject => "Malformed bundle: expected a JSON object"
  | .unsupportedVersion shown =>
    "Unsupported bundle version " ++ String.ofList shown ++ s!", expected {version}"
  | .shape e => "Malformed bundle: " ++ e.message
  | .code e => e.message
  | .invalidCharacter e => e.message

/-- Whether a value is the version of bundles. The truth value true and the number with a fraction
count as one. -/
def isVersion : Json → Bool
  | .int n => n = version
  | .bool b => b
  | .real x => x.toRat? = some 1
  | _ => false

/-- The parts of a value one after the other: the items of an array, the characters of a string or
the names of an object's fields. -/
def parts : Json → Except LoadError (List Json)
  | .arr items => .ok items
  | .str t => .ok (t.map fun c => .str [c])
  | .obj fields => .ok (fields.map fun (name, _) => .str name)
  | other => .error (.shape (.notIterable other.kindName))

/-- The part of a value with a given name. -/
def part (key : String) : Json → Except LoadError Json
  | .obj fields =>
    match Json.lookup? key.toList fields with
    | some value => .ok value
    | none => .error (.shape (.missingKey key))
  | .str _ => .error (.shape .stringIndex)
  | .arr _ => .error (.shape .listIndex)
  | other => .error (.shape (.notSubscriptable other.kindName))

def textOf : Json → Except LoadError Text
  | .str t => .ok t
  | other => .error (.shape (.notText other.kindName))

def loadVerse (value : Json) : Except LoadError Verse :=
  match textOf value with
  | .error e => .error e
  | .ok t => (TaggedWord.decodeText .hebrew t).mapError .code

def loadChapter (value : Json) : Except LoadError Chapter :=
  match parts value with
  | .error e => .error e
  | .ok verses => collect loadVerse verses

/-- A book. Its name may be any value. -/
def loadBook (value : Json) : Except LoadError (Book Json) :=
  match part "name" value with
  | .error e => .error e
  | .ok name =>
    match part "chapters" value with
    | .error e => .error e
    | .ok chapters =>
      match parts chapters with
      | .error e => .error e
      | .ok cs => (collect loadChapter cs).map fun loaded => ⟨name, loaded⟩

def loadLexicon (value : Json) : Except LoadError Lexicon :=
  match textOf value with
  | .error e => .error e
  | .ok t =>
    match Lexicon.decode t with
    | .ok l => .ok l
    | .error (.code e) => .error (.code e)
    | .error (.invalidCharacter e) => .error (.invalidCharacter e)

def loadBooks (value : Json) : Except LoadError (List (Book Json)) :=
  match parts value with
  | .error e => .error e
  | .ok books => collect loadBook books

def load (value : Json) : Except LoadError (Corpus Json × Lexicon) :=
  match value with
  | .obj fields =>
    let v := (Json.lookup? "version".toList fields).getD .null
    if isVersion v then do
      let books ← part "books" value
      let loaded ← loadBooks books
      let lexicon ← part "lexicon" value
      let l ← loadLexicon lexicon
      return (⟨loaded⟩, l)
    else .error (.unsupportedVersion v.shown)
  | _ => .error .notAnObject

/-! ## Files -/

/-- Why a file is not read as a bundle. -/
inductive ReadError where
  | json (e : Json.ReadError)
  | load (e : LoadError)
  deriving Repr, DecidableEq

def ReadError.message : ReadError → String
  | .json e => e.message
  | .load e => e.message

def read (content : Text) : Except ReadError (Corpus Json × Lexicon) :=
  match Json.parse content with
  | .error e => .error (.json e)
  | .ok value => (load value).mapError .load

def write (bundle : Json) : Text := bundle.write Json.spaced

/-- The text of a book's name: a string as it is, any other value as it stands in messages. -/
def nameText : Json → Text
  | .str t => t
  | other => other.shown

end Bundle

end VerseSearch
