import VerseSearch.Text.Basic

/-! # Hebrew letters and marks

A shin and a sin are two letters, each written as one composed character. The bare letter that
stands for either of them is not a letter of the alphabet.

* `letters`: the letters, final forms included, in alphabetical order.
* `points`, `accents`: the marks for vowels and for cantillation.
* `isNonLetter`: the marks and the joiner, which no search takes into account.
* `toRegular`: a final form as the letter that it is a form of.
-/

namespace VerseSearch.Hebrew
set_option autoImplicit false

/-! ## Single characters -/

/-- What stands between two words. -/
def separator : Char := ' '

/-- The letter that is a shin or a sin, depending on the dot after it. -/
def bareShin : Char := '\u05e9'

/-- The composed shin. -/
def shin : Char := '\ufb2a'

/-- The composed sin. -/
def sin : Char := '\ufb2b'

/-- The last letter. -/
def tav : Char := '\u05ea'

/-- The dot that makes a shin. -/
def shinDot : Char := '\u05c1'

/-- The dot that makes a sin. -/
def sinDot : Char := '\u05c2'

/-- The hyphen between joined words. -/
def maqaf : Char := '\u05be'

/-- The colon at the end of a verse. -/
def sofPasuq : Char := '\u05c3'

/-- The inverted nun that may follow the end of a verse. -/
def nunHafukha : Char := '\u05c6'

/-- The letter that marks an open section after a verse. -/
def openSection : Char := 'פ'

/-- The letter that marks a closed section after a verse. -/
def closedSection : Char := 'ס'

/-- The joiner without width. -/
def joiner : Char := '\u200d'

/-! ## Classes -/

/-- The letters before shin, final forms included. -/
def lettersBeforeShin : Text :=
  ['א', 'ב', 'ג', 'ד', 'ה', 'ו', 'ז', 'ח', 'ט', 'י', 'ך', 'כ', 'ל', 'ם', 'מ', 'ן', 'נ', 'ס', 'ע',
   'ף', 'פ', 'ץ', 'צ', 'ק', 'ר']

/-- The letters in alphabetical order. -/
def letters : Text := lettersBeforeShin ++ [shin, sin, tav]

/-- The marks for vowels and their like; the stress mark and the paseq are not among them. -/
def points : Text :=
  ['\u05b0', '\u05b1', '\u05b2', '\u05b3', '\u05b4', '\u05b5', '\u05b6', '\u05b7', '\u05b8',
   '\u05b9', '\u05ba', '\u05bb', '\u05bc', '\u05bf', '\u05c3', '\u05c4', '\u05c5', '\u05c6']

/-- The marks for cantillation, the stress mark and the paseq. -/
def accents : Text :=
  ['\u0591', '\u0592', '\u0593', '\u0594', '\u0595', '\u0596', '\u0597', '\u0598', '\u0599',
   '\u059a', '\u059b', '\u059c', '\u059d', '\u059e', '\u059f', '\u05a0', '\u05a1', '\u05a3',
   '\u05a4', '\u05a5', '\u05a6', '\u05a7', '\u05a8', '\u05a9', '\u05aa', '\u05ab', '\u05ac',
   '\u05ad', '\u05ae', '\u05bd', '\u05c0']

/-- The points, the accents and the joiner. -/
def nonLetters : Text := points ++ accents ++ [joiner]

def isLetter (c : Char) : Bool := letters.contains c

def isPoint (c : Char) : Bool := points.contains c

def isAccent (c : Char) : Bool := accents.contains c

/-- Whether a character is a point, an accent or the joiner. -/
def isNonLetter (c : Char) : Bool := nonLetters.contains c

/-! ## Final forms -/

/-- The final forms and the letters that they are forms of. -/
def finalForms : List (Char × Char) :=
  [('ך', 'כ'), ('ם', 'מ'), ('ן', 'נ'), ('ף', 'פ'), ('ץ', 'צ')]

/-- A final form as its letter; every other character as it is. -/
def toRegular (c : Char) : Char := (finalForms.lookup c).getD c

end VerseSearch.Hebrew
