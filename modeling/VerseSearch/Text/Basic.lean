/-! # Text as a list of code points

Every length and every offset in this library counts code points, so text is a list of them.

* `Text`: a list of characters.
* `inRanges`: membership in a sorted table of code point ranges.
* `Text.isBlank`, `Text.strip`, `Text.stripLeft`, `Text.stripRight`: white space and its removal.
* `Text.stripNumber`: the removal of the white space around a number.
* `Text.ofNat`, `Text.ofInt`: decimal digits.
* `Text.hex`: hexadecimal digits of at least a given width.
-/

namespace VerseSearch
set_option autoImplicit false

/-- Text is a list of code points. -/
abbrev Text := List Char

/-- Whether `n` lies in one of the closed ranges of a table sorted by its lower ends. -/
def inRanges : List (Nat × Nat) → Nat → Bool
  | [], _ => false
  | (lo, hi) :: rest, n => if n < lo then false else if n ≤ hi then true else inRanges rest n

namespace Text

/-! ## White space -/

def blankRanges : List (Nat × Nat) :=
  [(0x09, 0x0D), (0x1C, 0x20), (0x85, 0x85), (0xA0, 0xA0), (0x1680, 0x1680), (0x2000, 0x200A),
   (0x2028, 0x2029), (0x202F, 0x202F), (0x205F, 0x205F), (0x3000, 0x3000)]

def isBlank (c : Char) : Bool := inRanges blankRanges c.toNat

def stripLeft (t : Text) : Text := t.dropWhile isBlank

/-- The text without the characters of a class at its end. -/
def dropRightWhile (p : Char → Bool) (t : Text) : Text := (t.reverse.dropWhile p).reverse

def stripRight (t : Text) : Text := dropRightWhile isBlank t

def strip (t : Text) : Text := stripRight (stripLeft t)

/-- Whether a character is white space that may stand around a number: the four separators of
records from U+001C on may not. -/
def isNumberBlank (c : Char) : Bool := isBlank c && !(0x1C ≤ c.toNat && c.toNat ≤ 0x1F)

/-- The text of a number without the white space around it. -/
def stripNumber (t : Text) : Text := dropRightWhile isNumberBlank (t.dropWhile isNumberBlank)

def isAllBlank (t : Text) : Bool := t.all isBlank

/-! ## Numbers -/

def ofNat (n : Nat) : Text := Nat.toDigits 10 n

/-- The decimal digits of an integer, after a minus sign if it is negative. -/
def ofInt : Int → Text
  | .ofNat n => ofNat n
  | .negSucc n => '-' :: ofNat (n + 1)

/-- The lower-case hexadecimal digits of `n`, filled with zeros to at least `width`. -/
def hex (width n : Nat) : Text :=
  let digits := Nat.toDigits 16 n
  List.replicate (width - digits.length) '0' ++ digits

/-- The same digits in upper case. -/
def upperHex (width n : Nat) : Text := (hex width n).map Char.toUpper

/-! ## Parts -/

/-- The text with every occurrence of one character replaced by another. -/
def replaceChar (a b : Char) (t : Text) : Text := t.map fun c => if c = a then b else c

/-- Whether a text comes before another in the order of code points. -/
def precedes : Text → Text → Bool
  | _, [] => false
  | [], _ :: _ => true
  | a :: as, b :: bs => a.toNat < b.toNat || a = b && precedes as bs

def isPartOf (part : Text) : Text → Bool
  | [] => part.isEmpty
  | c :: rest => part.isPrefixOf (c :: rest) || isPartOf part rest

end Text

end VerseSearch
