import VerseSearch.Hebrew.Letters

/-! # Alphabets of seven-bit codes

* `Alphabet`: at most 128 distinct symbols, the first of which separates words.
* `Alphabet.ofSymbols`: the alphabet of given symbols, if they make one.
* `Alphabet.indexOf?`, `Alphabet.symbolAt?`: the code of a symbol and the symbol of a code.
* `Alphabet.hebrew`: the separator, the letters, the points, the accents and the joiner.
-/

namespace VerseSearch
set_option autoImplicit false

open Hebrew

/-- Distinct symbols, each coded by its place; the separator has the code zero. -/
structure Alphabet where
  symbols : Text
  length_le : symbols.length ≤ 128
  head_eq : symbols.head? = some separator
  nodup : symbols.Nodup

/-- Why symbols make no alphabet. -/
inductive AlphabetError where
  | tooMany (count : Nat)
  | noSeparator
  | repeated
  deriving Repr, DecidableEq

def AlphabetError.message : AlphabetError → String
  | .tooMany count => s!"Alphabet of {count} symbols does not fit in 7 bits"
  | .noSeparator => "Alphabet index 0 must be the word separator"
  | .repeated => "Alphabet symbols must be unique"

namespace Alphabet

def ofSymbols (symbols : Text) : Except AlphabetError Alphabet :=
  if h₁ : symbols.length ≤ 128 then
    if h₂ : symbols.head? = some separator then
      if h₃ : symbols.Nodup then .ok ⟨symbols, h₁, h₂, h₃⟩ else .error .repeated
    else .error .noSeparator
  else .error (.tooMany symbols.length)

/-- The symbols of the Hebrew alphabet, in the order of their codes. -/
def hebrewSymbols : Text := separator :: letters ++ nonLetters

def hebrew : Alphabet where
  symbols := hebrewSymbols
  length_le := by decide
  head_eq := by decide
  nodup := by decide

def size (a : Alphabet) : Nat := a.symbols.length

def contains (a : Alphabet) (c : Char) : Bool := a.symbols.contains c

def indexOf? (a : Alphabet) (c : Char) : Option Nat := a.symbols.idxOf? c

def symbolAt? (a : Alphabet) (index : Nat) : Option Char := a.symbols[index]?

/-- The code of a text that consists of one symbol. -/
def indexOfText? (a : Alphabet) : Text → Option Nat
  | [c] => a.indexOf? c
  | _ => none

/-- The symbol of an integer code. -/
def symbolAtInt? (a : Alphabet) : Int → Option Char
  | .ofNat index => a.symbolAt? index
  | .negSucc _ => none

/-- Whether a text occurs in the row of letters. -/
def isLetterRun (t : Text) : Bool := t.isPartOf letters

end Alphabet

end VerseSearch
