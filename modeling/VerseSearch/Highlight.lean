import VerseSearch.Hebrew.Letters

/-! # The words that a match covers

A match gives a span of a search string; a reader sees words. A word begins after a separator, so
the separators before an offset tell the word at that offset.

* `Highlight.wordAt`: the word at an offset.
* `Highlight.wordRange`: the first and the last word that a span covers.
* `Highlight.coveredWords`: all words that spans cover, in order.
-/

namespace VerseSearch.Highlight
set_option autoImplicit false

/-- Offsets that lie outside a search string. -/
inductive RangeError where
  | offset (place last : Int)
  | span (start stop : Int)
  deriving Repr, DecidableEq

def RangeError.message : RangeError → String
  | .offset place last => s!"offset {place} is out of range (0..{last})"
  | .span start stop => s!"match [{start}, {stop}) is out of range"

/-- The word at an offset: the separators before it less the one that begins the string. -/
def wordAt (s : Text) (offset : Int) : Except RangeError Nat :=
  if offset < 0 ∨ (s.length : Int) ≤ offset then .error (.offset offset (s.length - 1))
  else .ok ((s.take offset.toNat).count Hebrew.separator - 1)

/-- The first and the last word that a span covers. A separator at either end of the span is not
counted, except that an empty rest stays where it is. -/
def wordRange (s : Text) (start stop : Int) : Except RangeError (Nat × Nat) :=
  if start < 0 ∨ (s.length : Int) < stop ∨ stop < start then .error (.span start stop)
  else
    let start :=
      if start < stop ∧ s[start.toNat]? = some Hebrew.separator then start + 1 else start
    let stop :=
      if start < stop ∧ s[stop.toNat - 1]? = some Hebrew.separator then stop - 1 else stop
    let last : Int := s.length - 1
    -- a span at the very end of the string covers the word of its last character
    match wordAt s (min start last), wordAt s (min stop last) with
    | .error e, _ => .error e
    | _, .error e => .error e
    | .ok first, .ok final => .ok (first, final)

/-- Inserts a number into a sorted list without repetitions. -/
def insertWord (n : Nat) : List Nat → List Nat
  | [] => [n]
  | m :: rest =>
    if n < m then n :: m :: rest else if n = m then m :: rest else m :: insertWord n rest

/-- Adds the numbers from `first` on, `count` of them. -/
def insertFrom (covered : List Nat) (first : Nat) : Nat → List Nat
  | 0 => covered
  | count + 1 => insertFrom (insertWord first covered) (first + 1) count

/-- Adds the words that spans cover to the words `covered`. -/
def coverFrom (s : Text) (covered : List Nat) : List (Int × Int) → Except RangeError (List Nat)
  | [] => .ok covered
  | (start, stop) :: rest =>
    if stop ≤ start then coverFrom s covered rest
    else match wordRange s start stop with
      | .error e => .error e
      | .ok (first, last) => coverFrom s (insertFrom covered first (last + 1 - first)) rest

/-- The words that the nonempty ones among some spans cover, in order. -/
def coveredWords (s : Text) (spans : List (Int × Int)) : Except RangeError (List Nat) :=
  coverFrom s [] spans

end VerseSearch.Highlight
