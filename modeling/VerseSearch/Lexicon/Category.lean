import VerseSearch.Text.Quoted

/-! # Word categories

* `Category`: the known categories, the category of entries without a word, and any other name.
* `Category.ofName`, `Category.toName`: categories and their names.
* `Category.code?`: the number that stands for a category in an encoded lexicon.
* `Category.ofCode`: the category of a number; numbers past the known ones stand for no word.
-/

namespace VerseSearch
set_option autoImplicit false

inductive Category where
  | verb
  | derivedVerb
  | noun
  | properName
  | adjective
  | adverb
  | pronoun
  | preposition
  | interjection
  | conjunction
  | word
  /-- The category of numbers that have no word. -/
  | unknown
  /-- A name that is none of a category. -/
  | unlisted (label : Text)
  deriving Repr, DecidableEq

namespace Category

/-- The known categories, in the order of their codes. -/
def known : List Category :=
  [.verb, .derivedVerb, .noun, .properName, .adjective, .adverb, .pronoun, .preposition,
   .interjection, .conjunction, .word]

def toName : Category → Text
  | .verb => "Verb".toList
  | .derivedVerb => "Derived-Verb".toList
  | .noun => "Noun".toList
  | .properName => "Name".toList
  | .adjective => "Adjective".toList
  | .adverb => "Adverb".toList
  | .pronoun => "Pronoun".toList
  | .preposition => "Preposition".toList
  | .interjection => "Interjection".toList
  | .conjunction => "Conjunction".toList
  | .word => "word".toList
  | .unknown => "unknown".toList
  | .unlisted label => label

def ofKnownName? (name : Text) : Option Category := known.find? fun c => c.toName = name

def ofName (name : Text) : Category :=
  match ofKnownName? name with
  | some c => c
  | none => if name = unknown.toName then .unknown else .unlisted name

def hebrewName : Category → Text
  | .verb => "פֹּעַל".toList
  | .derivedVerb => "פֹּעַל נִגְזָר".toList
  | .noun => "שֵׁם עֶצֶם".toList
  | .properName => "שֵׁם פְּרָטִי".toList
  | .adjective => "שֵׁם תֹּאַר".toList
  | .adverb => "תֹּאַר הַפֹּעַל".toList
  | .pronoun => "שֵׁם גּוּף".toList
  | .preposition => "מִלַּת יַחַס".toList
  | .interjection => "מִלַּת קְרִיאָה".toList
  | .conjunction => "מִלַּת חִבּוּר".toList
  | .word => "סוג לא ידוע".toList
  | .unknown => "לא ידוע".toList
  | .unlisted _ => "לא ידוע".toList

def code? : Category → Option Nat
  | .unlisted _ => none
  | .unknown => some known.length
  | c => known.idxOf? c

def ofCode (code : Int) : Category :=
  match code with
  | .ofNat n => (known[n]?).getD .unknown
  | .negSucc _ => .unknown

/-- The words for a category without a code. -/
def missingMessage (name : Text) : String := String.ofList name.quoted

end Category

end VerseSearch
